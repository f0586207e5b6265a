/-!
# Differences between two texts

The unified form of the difference between two lists of lines: the changed places, each with up to
three lines of context around it.

The lines that stay are found by repeatedly taking the longest run of lines that both texts have,
and then looking to the left and to the right of it.  Of several longest runs the one that is first
in the first text wins, then the one that is first in the second.  In a second text of 200 lines or
more a *frequent* line, one that makes up more than about a hundredth of it, starts no run; it only
extends one.
-/

namespace HackToolchain.Text

/-- A run of `size` lines that both texts have, at the place `a` of the first and `b` of the
second. -/
structure CommonRun where
  /-- Its place in the first text. -/
  a : Nat
  /-- Its place in the second text. -/
  b : Nat
  /-- The number of its lines. -/
  size : Nat
  deriving DecidableEq, Repr, Inhabited

/-- A stretch of the first text, lines `a1` to before `a2`, against one of the second, lines `b1` to
before `b2`. -/
structure Stretch where
  /-- The lines are the same in both texts. -/
  same : Bool
  /-- The first line in the first text. -/
  a1 : Nat
  /-- The line after the last in the first text. -/
  a2 : Nat
  /-- The first line in the second text. -/
  b1 : Nat
  /-- The line after the last in the second text. -/
  b2 : Nat
  deriving DecidableEq, Repr, Inhabited

namespace Difference

/-! ### The longest common run -/

/-- A line that occurs too often in a long text to start a run. -/
def isFrequent (b : Array String) (line : String) : Bool :=
  200 ≤ b.size && b.size / 100 + 1 < b.count line

/-- The places of a line in the second text, in ascending order; none for a frequent line. -/
def places (b : Array String) (line : String) : List Nat :=
  if isFrequent b line then []
  else (List.range b.size).filter fun j => b[j]? == some line

/-- Given the runs that end just before a line of the first text, each as the place of its last line
in the second text and its length, the runs that end at that line, which has the given places. -/
def extendRuns : List (Nat × Nat) → List Nat → List (Nat × Nat)
  | _, [] => []
  | [], j :: js => (j, 1) :: extendRuns [] js
  | (p, size) :: runs, j :: js =>
    -- both lists ascend, so that a run that ends before `j - 1` cannot be extended any more
    if p + 1 < j then extendRuns runs (j :: js)
    else if p + 1 = j then (j, size + 1) :: extendRuns runs js
    else (j, 1) :: extendRuns ((p, size) :: runs) js
  termination_by runs js => runs.length + js.length

/-- The longer of the best run so far and the runs that end at line `i` of the first text. -/
def bestRun (i : Nat) (best : CommonRun) (runs : List (Nat × Nat)) : CommonRun :=
  runs.foldl (fun best run =>
    if best.size < run.2 then ⟨i + 1 - run.2, run.1 + 1 - run.2, run.2⟩ else best) best

/-- Looks through `count` lines of the first text from line `i` on for the longest run of lines that
are not frequent, inside lines `b1` to before `b2` of the second. -/
def longestRun.go (at_ : Array (List Nat)) (b1 b2 : Nat) :
    Nat → Nat → List (Nat × Nat) → CommonRun → CommonRun
  | 0, _, _, best => best
  | count + 1, i, runs, best =>
    let js := (at_.getD i []).filter fun j => b1 ≤ j && j < b2
    let runs := extendRuns runs js
    longestRun.go at_ b1 b2 count (i + 1) runs (bestRun i best runs)

/-- The run with as many equal lines in front as there are, down to `a1` and `b1`. -/
def growLeft (a b : Array String) (a1 b1 : Nat) : Nat → CommonRun → CommonRun
  | 0, run => run
  | n + 1, run =>
    if a1 < run.a && b1 < run.b && a[run.a - 1]? == b[run.b - 1]? then
      growLeft a b a1 b1 n ⟨run.a - 1, run.b - 1, run.size + 1⟩
    else run

/-- The run with as many equal lines behind as there are, up to `a2` and `b2`. -/
def growRight (a b : Array String) (a2 b2 : Nat) : Nat → CommonRun → CommonRun
  | 0, run => run
  | n + 1, run =>
    if run.a + run.size < a2 && run.b + run.size < b2 &&
        a[run.a + run.size]? == b[run.b + run.size]? then
      growRight a b a2 b2 n { run with size := run.size + 1 }
    else run

/-- The longest run inside lines `a1` to before `a2` of the first text and `b1` to before `b2` of
the second; `at_` has the places of each line of the first text. -/
def longestRun (a b : Array String) (at_ : Array (List Nat)) (a1 a2 b1 b2 : Nat) : CommonRun :=
  let run := longestRun.go at_ b1 b2 (a2 - a1) a1 [] ⟨a1, b1, 0⟩
  growRight a b a2 b2 (a2 - a1) (growLeft a b a1 b1 (a2 - a1) run)

/-- The common runs inside the given lines, in order. -/
def commonRuns.go (a b : Array String) (at_ : Array (List Nat)) (a1 a2 b1 b2 : Nat) :
    List CommonRun :=
  match longestRun a b at_ a1 a2 b1 b2 with
  | ⟨i, j, size⟩ =>
    if _h : 0 < size ∧ a1 ≤ i ∧ i + size ≤ a2 then
      let left :=
        if _l : a1 < i ∧ b1 < j then commonRuns.go a b at_ a1 i b1 j else []
      let right :=
        if _r : i + size < a2 ∧ j + size < b2 then
          commonRuns.go a b at_ (i + size) a2 (j + size) b2
        else []
      left ++ ⟨i, j, size⟩ :: right
    else []
  termination_by a2 - a1

/-- Runs that touch in both texts, made one. -/
def mergeRuns : List CommonRun → List CommonRun
  | run :: next :: runs =>
    if run.a + run.size = next.a ∧ run.b + run.size = next.b then
      mergeRuns (⟨run.a, run.b, run.size + next.size⟩ :: runs)
    else run :: mergeRuns (next :: runs)
  | runs => runs
  termination_by runs => runs.length

/-- The common runs of two texts, in order, none touching the next in both texts. -/
def commonRuns (a b : Array String) : List CommonRun :=
  let at_ := a.map (places b)
  mergeRuns (commonRuns.go a b at_ 0 a.size 0 b.size)

/-! ### Stretches -/

/-- The stretches from `i` and `j` on, where the given runs are still to come and the texts have
`m` and `n` lines. -/
def stretches.go (m n : Nat) : Nat → Nat → List CommonRun → List Stretch
  | i, j, [] => if i < m || j < n then [⟨false, i, m, j, n⟩] else []
  | i, j, run :: runs =>
    let changed := if i < run.a || j < run.b then [⟨false, i, run.a, j, run.b⟩] else []
    changed ++ ⟨true, run.a, run.a + run.size, run.b, run.b + run.size⟩ ::
      stretches.go m n (run.a + run.size) (run.b + run.size) runs

/-- The stretches of two texts, the same and the changed ones, in order. -/
def stretches (a b : Array String) : List Stretch :=
  stretches.go a.size b.size 0 0 (commonRuns a b)

/-- The last `n` lines of a stretch. -/
def Stretch.takeLast (n : Nat) (s : Stretch) : Stretch :=
  { s with a1 := max s.a1 (s.a2 - n), b1 := max s.b1 (s.b2 - n) }

/-- The first `n` lines of a stretch. -/
def Stretch.takeFirst (n : Nat) (s : Stretch) : Stretch :=
  { s with a2 := min s.a2 (s.a1 + n), b2 := min s.b2 (s.b1 + n) }

/-- The number of context lines around a change. -/
def context : Nat := 3

/-- The stretches with the context cut short at the beginning of the text. -/
def trimFirst : List Stretch → List Stretch
  | s :: rest => (if s.same then Stretch.takeLast context s else s) :: rest
  | [] => []

/-- The stretches with the context cut short at the end of the text. -/
def trimLast : List Stretch → List Stretch
  | [s] => [if s.same then Stretch.takeFirst context s else s]
  | s :: rest => s :: trimLast rest
  | [] => []

/-- Puts stretches into groups; `group` holds the group under way, last stretch first.  A stretch
that stays and is longer than twice the context ends one group and begins the next. -/
def groups.go : List Stretch → List Stretch → List (List Stretch)
  | [], group =>
    match group with
    | [] => []
    | [s] => if s.same then [] else [[s]]
    | _ => [group.reverse]
  | s :: rest, group =>
    if s.same && 2 * context < s.a2 - s.a1 then
      (Stretch.takeFirst context s :: group).reverse ::
        groups.go rest [Stretch.takeLast context s]
    else groups.go rest (s :: group)

/-- The groups of changes, each with its context. -/
def groups (a b : Array String) : List (List Stretch) :=
  groups.go (trimLast (trimFirst (stretches a b))) []

/-! ### The unified form -/

/-- The text of a range of lines: its first line, counted from one, and its length unless that is
one.  An empty range names the line before it. -/
def rangeText (first stop : Nat) : String :=
  let length := stop - first
  if length = 1 then toString (first + 1)
  else if length = 0 then toString first ++ ",0"
  else toString (first + 1) ++ "," ++ toString length

/-- The lines of a range, each behind a mark. -/
def marked (mark : String) (lines : Array String) (first stop : Nat) : List String :=
  (lines.extract first stop).toList.map (mark ++ ·)

/-- The lines that show a stretch. -/
def stretchLines (a b : Array String) (s : Stretch) : List String :=
  if s.same then marked " " a s.a1 s.a2 else marked "-" a s.a1 s.a2 ++ marked "+" b s.b1 s.b2

/-- The lines that show a group. -/
def groupLines (a b : Array String) (group : List Stretch) : List String :=
  match group.head?, group.getLast? with
  | some first, some last =>
    ("@@ -" ++ rangeText first.a1 last.a2 ++ " +" ++ rangeText first.b1 last.b2 ++ " @@") ::
      group.flatMap (stretchLines a b)
  | _, _ => []

/-- The unified difference of two texts that bear the given names; nothing if they are equal. -/
def unified (nameA nameB : String) (a b : Array String) : List String :=
  match groups a b with
  | [] => []
  | gs => ("--- " ++ nameA) :: ("+++ " ++ nameB) :: gs.flatMap (groupLines a b)

end Difference

end HackToolchain.Text
