import HackToolchain.Proofs.Machine.AnySchedule
import HackToolchain.Proofs.Text.Token
import HackToolchain.Proofs.Text.Utf8
import Mathlib.Data.List.Forall2

/-!
# Schedule files

What is read from a schedule file, and what becomes of it in a run.  Reading bounds the values, but
neither the ticks nor the addresses: whether what has been read takes effect is a matter of their
signs.

* `readLine_eq_ok`, `readLines_eq_ok`: one event is read for each line that holds something
  besides a comment, in order;
* `ofBytes_effect`: the schedule of a file takes effect in every run if and only if no tick and no
  address in it is negative, and otherwise a run makes of it what `Computer.Heeds` says;
* `negativeAddress_redirected`: a line that is read although it names no cell.
-/

namespace HackToolchain.Machine

open Text

/-! ### Lines and events -/

/-- There is something on the line besides a comment. -/
def isOccupied (line : List Char) : Bool :=
  (before '#' line).any fun c => !isBlank c

/-- The lines of a text that hold an event. -/
def entryLines (text : String) : List (List Char) :=
  (Schedule.allLines text.toList).filter isOccupied

/-- The line holds the event: a decimal tick, an address, and a number of which the value has the
last sixteen bits. -/
structure IsEntry (line : List Char) (event : Event) : Prop where
  parts : ∃ tick address value n, tokens (before '#' line) = [tick, address, value] ∧
    readDecimal (String.ofList tick) = .ok event.tick ∧
    readAddress (String.ofList address) = .ok event.address ∧
    readLiteral (String.ofList value) = .ok n ∧ event.value % 0x10000 = n % 0x10000
  isWord : IsWord event.value

theorem isOccupied_iff {line : List Char} :
    isOccupied line = true ↔ tokens (before '#' line) ≠ [] := by
  rw [isOccupied, List.any_eq_true, Ne, tokens_eq_nil_iff, not_forall]
  simp

/-- The parts of an event are read one by one. -/
theorem ofTokens_eq_ok {tick address value : String} {event : Event}
    (h : Event.ofTokens tick address value = .ok event) :
    readDecimal tick = .ok event.tick ∧ readAddress address = .ok event.address ∧
      ∃ n, readLiteral value = .ok n ∧ event.value = n % 0x10000 := by
  unfold Event.ofTokens at h
  simp only [bind, Except.bind] at h
  split at h
  · cases h
  · split at h
    · cases h
    · split at h
      · cases h
      · rename_i _ t ht _ a ha _ n hn
        injection h with h
        rw [← h]
        exact ⟨ht, ha, n, hn, rfl⟩

/-- An event is read from an occupied line that holds it, and nothing from the other lines. -/
theorem readLine_eq_ok {line : List Char} {entry : Option Event}
    (h : Schedule.readLine line = .ok entry) :
    match entry with
    | none => isOccupied line = false
    | some event => isOccupied line = true ∧ IsEntry line event := by
  rw [Schedule.readLine] at h
  split at h
  · rename_i hparts
    injection h with h
    subst h
    rw [List.map_eq_nil_iff] at hparts
    rw [← Bool.not_eq_true, isOccupied_iff, not_not]
    exact hparts
  · rename_i tick address value hparts
    split at h
    · rename_i event hevent
      injection h with h
      subst h
      obtain ⟨htick, haddress, n, hvalue, hmod⟩ := ofTokens_eq_ok hevent
      -- the parts come from lists of characters
      rw [List.map_eq_cons_iff] at hparts
      obtain ⟨tick, parts, htokens, rfl, hparts⟩ := hparts
      rw [List.map_eq_cons_iff] at hparts
      obtain ⟨address, parts, rfl, rfl, hparts⟩ := hparts
      rw [List.map_eq_cons_iff] at hparts
      obtain ⟨value, parts, rfl, rfl, hparts⟩ := hparts
      obtain rfl := List.map_eq_nil_iff.1 hparts
      refine ⟨isOccupied_iff.2 (by rw [htokens]; exact List.cons_ne_nil _ _),
        ⟨tick, address, value, n, htokens, htick, haddress, hvalue, ?_⟩, ?_⟩
      · rw [hmod, Int.emod_emod]
      · rw [hmod]
        exact ⟨by omega, by omega⟩
    · cases h
  · cases h

/-- One event is read for each occupied line, in order. -/
theorem readLines_eq_ok {lines : List (List Char)} {done events : Array Event}
    (h : Schedule.readLines done lines = .ok events) :
    ∃ rest, events.toList = done.toList ++ rest ∧
      List.Forall₂ IsEntry (lines.filter isOccupied) rest := by
  induction lines generalizing done with
  | nil =>
    injection h with h
    exact ⟨[], by rw [h, List.append_nil], .nil⟩
  | cons line lines ih =>
    rw [Schedule.readLines] at h
    cases hline : Schedule.readLine line with
    | error error =>
      rw [hline] at h
      cases h
    | ok entry =>
      have hentry := readLine_eq_ok hline
      rw [hline] at h
      cases entry with
      | none =>
        obtain ⟨rest, hevents, hrest⟩ := ih h
        refine ⟨rest, hevents, ?_⟩
        rw [List.filter_cons_of_neg (by rw [hentry]; exact Bool.false_ne_true)]
        exact hrest
      | some event =>
        obtain ⟨rest, hevents, hrest⟩ := ih h
        refine ⟨event :: rest, ?_, ?_⟩
        · rw [hevents, Array.toList_push, List.append_assoc, List.singleton_append]
        · rw [List.filter_cons_of_pos hentry.1]
          exact .cons hentry.2 hrest

/-! ### Files and runs -/

/-- The schedule of a file has one event for each line that holds something besides a comment, and
its values are words.  It takes effect in every run if and only if no tick and no address in it is
negative; in general a run leaves out the events at negative ticks, and those at negative addresses
are written into cells that are found from the end of the memory, or stop it. -/
theorem ofBytes_effect {text : String} {schedule : Schedule}
    (h : Schedule.ofBytes (Utf8.encode text) = .ok schedule) :
    List.Forall₂ IsEntry (entryLines text) schedule ∧
      (schedule.TakesEffect ↔ ∀ event ∈ schedule, 0 ≤ event.tick ∧ 0 ≤ event.address) ∧
      ∀ c : Computer, c.schedule = schedule → c.HasWords → ∀ ramWords : Int,
        c.Heeds (State.fresh ramWords) := by
  refine ⟨?_, takesEffect_iff schedule, fun c _ hwords ramWords =>
    Computer.heeds hwords (State.isSound_fresh ramWords)⟩
  rw [Schedule.ofBytes, Utf8.decodeBlocks_encode] at h
  dsimp only at h
  cases hread : Schedule.readLines #[] (Schedule.allLines text.toList) with
  | error error =>
    rw [hread] at h
    cases h
  | ok events =>
    rw [hread] at h
    injection h with h
    obtain ⟨rest, hevents, hrest⟩ := readLines_eq_ok hread
    obtain rfl : rest = schedule := by
      rw [← h, hevents]
      rfl
    exact hrest

/-- A schedule file with a comment, blank lines and all kinds of numerals. -/
def boundedText : String :=
  "# keys\n\n0 0x10 -1  # all bits\n\t2 SCREEN 0b11\n"

theorem ofBytes_effect_boundedText :
    Schedule.ofBytes (Utf8.encode boundedText) = .ok [⟨0, 16, 0xFFFF⟩, ⟨2, 0x4000, 3⟩] ∧
      Schedule.TakesEffect [⟨0, 16, 0xFFFF⟩, ⟨2, 0x4000, 3⟩] ∧
      List.Forall₂ IsEntry ["0 0x10 -1  # all bits".toList, "\t2 SCREEN 0b11".toList]
        [⟨0, 16, 0xFFFF⟩, ⟨2, 0x4000, 3⟩] := by
  have hread : Schedule.ofBytes (Utf8.encode boundedText) =
      .ok [⟨0, 16, 0xFFFF⟩, ⟨2, 0x4000, 3⟩] := by
    decide +kernel
  obtain ⟨hentries, htakes, -⟩ := ofBytes_effect hread
  have hlines : entryLines boundedText =
      ["0 0x10 -1  # all bits".toList, "\t2 SCREEN 0b11".toList] := by
    decide +kernel
  rw [hlines] at hentries
  exact ⟨hread, htakes.2 (by decide), hentries⟩

/-- Three lines that are read although they name no cell or no tick: the first writes the last cell,
the second stops the run, and the third does nothing. -/
theorem negativeAddress_redirected :
    (∃ schedule, Schedule.ofBytes (Utf8.encode "0 -1 7\n") = .ok schedule ∧
      ¬ schedule.TakesEffect ∧
      ∃ s, ({ rom := #[0], schedule := schedule } : Computer).run (State.fresh 4) = .ok s ∧
        s.data.ram.values = #[0, 0, 0, 7]) ∧
    (∃ schedule, Schedule.ofBytes (Utf8.encode "0 -5 7\n") = .ok schedule ∧
      ¬ schedule.TakesEffect ∧
      ∃ s, ({ rom := #[0], schedule := schedule } : Computer).run (State.fresh 4) =
        .fault (.ramWrite (-5)) s) ∧
    ∃ schedule, Schedule.ofBytes (Utf8.encode "-1 0 7\n") = .ok schedule ∧
      ¬ schedule.TakesEffect ∧
      ∃ s, ({ rom := #[0], schedule := schedule } : Computer).run (State.fresh 4) = .ok s ∧
        s.data.ram.values = #[0, 0, 0, 0] := by
  have hnot {event : Event} (h : ¬ (0 ≤ event.tick ∧ 0 ≤ event.address)) :
      ¬ Schedule.TakesEffect [event] := fun htakes =>
    h ((takesEffect_iff _).1 htakes event (List.mem_singleton_self _))
  refine ⟨⟨[⟨0, -1, 7⟩], by decide +kernel, hnot (by decide), _, rfl, by decide +kernel⟩,
    ⟨[⟨0, -5, 7⟩], by decide +kernel, hnot (by decide), _, rfl⟩,
    ⟨[⟨-1, 0, 7⟩], by decide +kernel, hnot (by decide), _, rfl, by decide +kernel⟩⟩

end HackToolchain.Machine
