import HackToolchain.Cli.Session

/-!
# Actions

How the parts of a command act on a session.

* `Leaves`: the actions that leave the session as it is, also when they fail;
* `writeText_cases`, `makeDirectories_cases`: a file is written, or nothing happens to the session;
  directories are made, as far as that is possible;
* `bind_eq_ok_iff` and the lemmas after it: what it means that an action ends well;
* `Carries`: the actions that end alike in two sessions.
-/

namespace HackToolchain.Cli.Session

open Files Text

variable {α β : Type}

theorem bind_of_eq_ok {x : Action α} {f : α → Action β} {a : α} {s s' : Session}
    (h : x s = .ok a s') : (x >>= f) s = f a s' := by
  simp only [bind, EStateM.bind, h]

theorem bind_of_eq_error {x : Action α} {f : α → Action β} {stop : Stop} {s s' : Session}
    (h : x s = .error stop s') : (x >>= f) s = .error stop s' := by
  simp only [bind, EStateM.bind, h]

/-! ### Actions that leave the session as it is -/

/-- The action leaves the session as it is.  If it stops, then with a failure. -/
def Leaves (x : Action α) : Prop :=
  ∀ s, (∃ a, x s = .ok a s) ∨ ∃ cause, x s = .error (.failure cause) s

theorem leaves_pure (a : α) : Leaves (pure a) :=
  fun _ => .inl ⟨a, rfl⟩

theorem leaves_get : Leaves get :=
  fun s => .inl ⟨s, rfl⟩

theorem leaves_ofExcept {ε : Type} (wrap : ε → Failure) (x : Except ε α) :
    Leaves (ofExcept wrap x) := by
  cases x with
  | ok a => exact leaves_pure a
  | error error => exact fun _ => .inr ⟨_, rfl⟩

theorem Leaves.bind {x : Action α} {f : α → Action β} (hx : Leaves x) (hf : ∀ a, Leaves (f a)) :
    Leaves (x >>= f) := by
  intro s
  rcases hx s with ⟨a, ha⟩ | ⟨cause, hcause⟩
  · rw [bind_of_eq_ok ha]
    exact hf a s
  · exact .inr ⟨cause, bind_of_eq_error hcause⟩

theorem leaves_mapM {f : α → Action β} (hf : ∀ a, Leaves (f a)) (xs : List α) :
    Leaves (xs.mapM f) := by
  induction xs with
  | nil => exact leaves_pure []
  | cons x xs ih =>
    rw [List.mapM_cons]
    exact (hf x).bind fun b => ih.bind fun bs => leaves_pure (b :: bs)

theorem leaves_fail (cause : Failure) : Leaves (fail cause : Action α) :=
  fun _ => .inr ⟨cause, rfl⟩

theorem leaves_need (value : MissingValue) (given : Option α) : Leaves (need value given) := by
  cases given with
  | none => exact leaves_fail _
  | some given => exact leaves_pure given

theorem leaves_directoryPath : Leaves directoryPath :=
  leaves_get.bind fun _ => leaves_pure _

theorem leaves_doesExist (path : Files.Path) : Leaves (doesExist path) :=
  (leaves_get.bind fun _ => leaves_ofExcept _ _).bind fun _ => leaves_pure _

theorem leaves_readBytesAs (shown : String) (path : Files.Path) :
    Leaves (readBytesAs shown path) :=
  leaves_get.bind fun _ => leaves_ofExcept _ _

theorem leaves_readBytes (path : Files.Path) : Leaves (readBytes path) :=
  leaves_readBytesAs _ path

theorem leaves_readText (path : Files.Path) : Leaves (readText path) :=
  (leaves_readBytes path).bind fun _ => leaves_ofExcept _ _

theorem leaves_sources (path : Files.Path) : Leaves (sources path) :=
  leaves_get.bind fun _ => leaves_ofExcept _ _

theorem leaves_compile (files : List Files.Path) (bootstrap comments : Bool) :
    Leaves (compile files bootstrap comments) :=
  (leaves_mapM (fun path => (leaves_readBytes path).bind fun _ => leaves_pure _) files).bind
    fun _ => leaves_ofExcept _ _

theorem leaves_assemble (code : List String) : Leaves (assemble code) :=
  (leaves_ofExcept _ _).bind fun _ => leaves_pure _

/-! ### Changing the tree -/

/-- A file is written, or the action stops and nothing happens to the session. -/
theorem writeText_cases (path : Files.Path) (text : String) (s : Session) :
    (∃ tree, s.tree.write s.directory path (Utf8.encode text) = .ok tree ∧
      writeText path text s = .ok () { s with tree }) ∨
    ∃ fault, s.tree.write s.directory path (Utf8.encode text) = .error fault ∧
      writeText path text s = .error (.failure (.file ⟨fault, path.text⟩)) s := by
  have hget : (get : Action Session) s = .ok s s := rfl
  unfold writeText writeTextAs
  rw [bind_of_eq_ok hget]
  cases hwrite : s.tree.write s.directory path (Utf8.encode text) with
  | ok tree => exact .inl ⟨tree, rfl, rfl⟩
  | error fault => exact .inr ⟨fault, rfl, rfl⟩

/-- Directories are made, or the action stops with those that have been made. -/
theorem makeDirectories_cases (path : Files.Path) (s : Session) :
    (∃ tree, s.tree.ensureDirectories path.parts = .ok tree ∧
      makeDirectories path s = .ok () { s with tree }) ∨
    ∃ stopped, s.tree.ensureDirectories path.parts = .error stopped ∧
      makeDirectories path s = .error (.failure (.file ⟨stopped.fault,
        (Files.Path.absolute stopped.location).text⟩)) { s with tree := stopped.tree } := by
  have hget : (get : Action Session) s = .ok s s := rfl
  unfold makeDirectories
  rw [bind_of_eq_ok hget]
  cases hmake : s.tree.ensureDirectories path.parts with
  | ok tree => exact .inl ⟨tree, rfl, rfl⟩
  | error stopped => exact .inr ⟨stopped, rfl, rfl⟩

/-- Writes files, one after the other. -/
def writeTexts : List (Files.Path × String) → Action Unit
  | [] => pure ()
  | (path, text) :: rest => do
    writeText path text
    writeTexts rest

/-! ### Actions that end well -/

section EndsWell

variable {a : α} {b : β} {s s' : Session} {path : Files.Path} {text : String}

theorem bind_eq_ok_iff {x : Action α} {f : α → Action β} :
    (x >>= f) s = .ok b s' ↔ ∃ a t, x s = .ok a t ∧ f a t = .ok b s' := by
  simp only [bind, EStateM.bind]
  cases x s with
  | ok a t =>
    constructor
    · intro h
      exact ⟨a, t, rfl, h⟩
    · rintro ⟨a, t, hx, hf⟩
      injection hx with ha ht
      rwa [ha, ht]
  | error stop t => simp

theorem pure_eq_ok_iff {a' : α} : (pure a : Action α) s = .ok a' s' ↔ a' = a ∧ s' = s := by
  constructor
  · intro h
    injection h with ha hs
    exact ⟨ha.symm, hs.symm⟩
  · rintro ⟨rfl, rfl⟩
    rfl

theorem ofExcept_eq_ok_iff {ε : Type} {wrap : ε → Failure} {x : Except ε α} :
    ofExcept wrap x s = .ok a s' ↔ x = .ok a ∧ s' = s := by
  cases x with
  | ok a' =>
    rw [ofExcept, pure_eq_ok_iff, Except.ok.injEq, eq_comm]
  | error error =>
    constructor
    · intro h
      cases h
    · rintro ⟨h, -⟩
      cases h

theorem readBytesAs_eq_ok_iff {shown : String} {bytes : ByteArray} :
    readBytesAs shown path s = .ok bytes s' ↔
      s.tree.read s.directory path = .ok bytes ∧ s' = s := by
  show ofExcept _ (s.tree.read s.directory path) s = _ ↔ _
  exact ofExcept_eq_ok_iff

theorem readText_eq_ok_iff :
    readText path s = .ok text s' ↔ (∃ bytes, s.tree.read s.directory path = .ok bytes ∧
      VM.textOfFile bytes = .ok text) ∧ s' = s := by
  rw [readText, bind_eq_ok_iff]
  constructor
  · rintro ⟨bytes, t, hread, hdecode⟩
    obtain ⟨hbytes, rfl⟩ := readBytesAs_eq_ok_iff.1 hread
    obtain ⟨htext, rfl⟩ := ofExcept_eq_ok_iff.1 hdecode
    exact ⟨⟨bytes, hbytes, htext⟩, rfl⟩
  · rintro ⟨⟨bytes, hbytes, htext⟩, rfl⟩
    exact ⟨bytes, s', readBytesAs_eq_ok_iff.2 ⟨hbytes, rfl⟩, ofExcept_eq_ok_iff.2 ⟨htext, rfl⟩⟩

theorem writeTextAs_eq_ok_iff {shown : String} :
    writeTextAs shown path text s = .ok () s' ↔ ∃ tree,
      s.tree.write s.directory path (Utf8.encode text) = .ok tree ∧ s' = { s with tree } := by
  constructor
  · intro h
    obtain ⟨u, t, hget, hrest⟩ := bind_eq_ok_iff.1 h
    injection hget with hu ht
    subst hu ht
    obtain ⟨tree, v, hwrite, hmodify⟩ := bind_eq_ok_iff.1 hrest
    obtain ⟨htree, rfl⟩ := ofExcept_eq_ok_iff.1 hwrite
    injection hmodify with _ hs
    exact ⟨tree, htree, hs.symm⟩
  · rintro ⟨tree, htree, rfl⟩
    exact bind_eq_ok_iff.2 ⟨s, s, rfl, bind_eq_ok_iff.2
      ⟨tree, s, ofExcept_eq_ok_iff.2 ⟨htree, rfl⟩, rfl⟩⟩

theorem makeDirectories_eq_ok_iff :
    makeDirectories path s = .ok () s' ↔ ∃ tree,
      s.tree.ensureDirectories path.parts = .ok tree ∧ s' = { s with tree } := by
  rcases makeDirectories_cases path s with ⟨tree, hmake, hok⟩ | ⟨stopped, hmake, herror⟩
  · rw [hok, hmake]
    simp [eq_comm]
  · rw [herror, hmake]
    simp

theorem node?_eq_ok_iff {node : Option Node} :
    node? path s = .ok node s' ↔ s.tree.node? s.directory path = .ok node ∧ s' = s := by
  show ofExcept _ (s.tree.node? s.directory path) s = _ ↔ _
  exact ofExcept_eq_ok_iff

theorem doesExist_eq_ok_iff {answer : Bool} :
    doesExist path s = .ok answer s' ↔ (∃ node, s.tree.node? s.directory path = .ok node ∧
      answer = node.isSome) ∧ s' = s := by
  rw [doesExist, bind_eq_ok_iff]
  constructor
  · rintro ⟨node, t, hnode, hpure⟩
    obtain ⟨hnode, rfl⟩ := node?_eq_ok_iff.1 hnode
    obtain ⟨rfl, rfl⟩ := pure_eq_ok_iff.1 hpure
    exact ⟨⟨node, hnode, rfl⟩, rfl⟩
  · rintro ⟨⟨node, hnode, rfl⟩, rfl⟩
    exact ⟨node, s', node?_eq_ok_iff.2 ⟨hnode, rfl⟩, rfl⟩

end EndsWell

/-- The value of an action that ends well. -/
def value? (x : Action α) (s : Session) : Option α :=
  match x s with
  | .ok a _ => some a
  | .error _ _ => none

/-- The session that an action leaves. -/
def after (x : Action α) (s : Session) : Session :=
  match x s with
  | .ok _ t => t
  | .error _ t => t

theorem eq_ok_of_value? {x : Action α} {a : α} {s : Session} (h : value? x s = some a) :
    x s = .ok a (after x s) := by
  unfold value? at h
  unfold after
  cases hx : x s with
  | ok b t =>
    rw [hx] at h
    injection h with h
    rw [h]
  | error stop t =>
    rw [hx] at h
    cases h

/-! ### Actions that end alike in another session -/

/-- If the action ends well in the first session, then it leaves that as it is, and so it does with
the same value in the second one. -/
def Carries (s t : Session) (x : Action α) : Prop :=
  ∀ a s', x s = .ok a s' → s' = s ∧ x t = .ok a t

section Carries

variable {s t : Session}

theorem carries_pure (a : α) : Carries s t (pure a) := by
  intro b s' h
  obtain ⟨rfl, rfl⟩ := pure_eq_ok_iff.1 h
  exact ⟨rfl, rfl⟩

theorem carries_ofExcept {ε : Type} (wrap : ε → Failure) (x : Except ε α) :
    Carries s t (ofExcept wrap x) := by
  intro b s' h
  obtain ⟨rfl, rfl⟩ := ofExcept_eq_ok_iff.1 h
  exact ⟨rfl, rfl⟩

theorem Carries.bind {x : Action α} {f : α → Action β} (hx : Carries s t x)
    (hf : ∀ a, x s = .ok a s → Carries s t (f a)) : Carries s t (x >>= f) := by
  intro b s' h
  obtain ⟨a, u, ha, hb⟩ := bind_eq_ok_iff.1 h
  obtain ⟨rfl, hat⟩ := hx a u ha
  obtain ⟨rfl, hbt⟩ := hf a ha b s' hb
  exact ⟨rfl, bind_eq_ok_iff.2 ⟨a, t, hat, hbt⟩⟩

theorem carries_mapM {f : α → Action β} {xs : List α} (hf : ∀ x ∈ xs, Carries s t (f x)) :
    Carries s t (xs.mapM f) := by
  induction xs with
  | nil => exact carries_pure []
  | cons x xs ih =>
    obtain ⟨hx, hxs⟩ := List.forall_mem_cons.1 hf
    rw [List.mapM_cons]
    exact hx.bind fun b _ => (ih hxs).bind fun bs _ => carries_pure (b :: bs)

end Carries

end HackToolchain.Cli.Session
