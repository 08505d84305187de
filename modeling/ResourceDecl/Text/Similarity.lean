/-!
# Similar words

Jaro's measure of two words: characters match when they are equal and not too far apart, and the
measure is the mean of the share of matches in either word and of the share of matches that stand
in the same order. Words are similar when the measure is at least seven tenths.
-/

namespace ResourceDecl.Text

/-- How far apart matching characters may stand. -/
def matchRange (a b : List Char) : Nat :=
  max a.length b.length / 2 - 1

/-- The position of the first character of `b` that is equal to `c`, is not used, and lies between
two positions. -/
def matchPosition? (c : Char) (b : List Char) (used : List Nat) (first last : Nat) : Option Nat :=
  (List.range (min b.length (last + 1))).find? fun j =>
    decide (first ≤ j) && b[j]? == some c && !used.contains j

/-- The positions of the matches in both words; a character takes the first match that is free. -/
def matchPositions (a b : List Char) : List (Nat × Nat) :=
  a.zipIdx.foldl
    (fun found (c, i) =>
      let used := found.map Prod.snd
      match matchPosition? c b used (i - matchRange a b) (i + matchRange a b) with
      | some j => found ++ [(i, j)]
      | none => found)
    []

/-- The number of matches, and of those that stand in another order in the other word. -/
def matchCounts (a b : List Char) : Nat × Nat :=
  let found := matchPositions a b
  let inA := found.map fun p => a[p.1]?
  let inB := ((found.map Prod.snd).mergeSort).map fun j => b[j]?
  (found.length, (inA.zip inB).countP (fun p => p.1 != p.2) / 2)

/-- Jaro's measure of the words is at least seven tenths. -/
def similar (a b : String) : Bool :=
  let a := a.toList
  let b := b.toList
  let (common, moved) := matchCounts a b
  let sum := common * common * (a.length + b.length) +
    (common - moved) * a.length * b.length
  decide (common ≠ 0) && decide (21 * a.length * b.length * common ≤ 10 * sum)

end ResourceDecl.Text
