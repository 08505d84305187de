import ResourceDecl.Text.Lines

/-!
# Line diff

Two texts are compared line by line at equal line numbers. A differing line is shown as it was
(`-`) and as it is (`+`); an empty side is not shown, and a missing line counts as empty.
-/

namespace ResourceDecl.Text

/-- One shown line: its mark, its number in four columns, its text. -/
def diffEntry (mark : Char) (number : Nat) (line : List Char) : String :=
  if line.isEmpty then ""
  else String.ofList [mark] ++ padLeft 4 (toString number) ++ " | " ++ String.ofList line ++ "\n"

/-- The entries of a line number, none if nothing differs there. -/
def diffEntries (number : Nat) (old new : List Char) : String :=
  if old = new then "" else diffEntry '-' number old ++ diffEntry '+' number new

/-- Lines of equal number side by side; a missing line counts as empty. -/
def sideBySide (old new : List (List Char)) : List (List Char × List Char) :=
  List.zipWithAll (fun a b => (a.getD [], b.getD [])) old new

/-- The entries of two lists of lines. -/
def diffLines (old new : List (List Char)) : List String :=
  ((sideBySide old new).zipIdx 1).map fun ((a, b), number) => diffEntries number a b

/-- The diff that leads from one text to another, `none` when they are equal. -/
def lineDiff (old new : String) : Option String :=
  if old = new then none
  else some (String.join (diffLines (contents old.toList) (contents new.toList)))

theorem lineDiff_eq_none_iff {old new : String} : lineDiff old new = none ↔ old = new := by
  simp [lineDiff]

end ResourceDecl.Text
