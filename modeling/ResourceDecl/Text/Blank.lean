/-!
# White space

Three classes of blank characters meet in a declaration file, and they differ.

* `isInlineBlank`: what may stand between two tokens of a line (space, tab, carriage return).
* `isBlank`: the White_Space property of Unicode, which is trimmed off the end of a comment.
* the line feed, which ends a line and belongs to no token.

`trimEnd_append` and `isBlank_of_mem_trimmed` pin `trimEnd` down: it cuts the text in two, and all
that it cuts off is blank.
-/

namespace ResourceDecl.Text

/-- Blanks that separate the tokens of one line. -/
def isInlineBlank (c : Char) : Bool :=
  c == ' ' || c == '\t' || c == '\r'

/-- The White_Space property of Unicode, as ranges of code points. -/
def blankRanges : List (Nat × Nat) :=
  [(0x9, 0xD), (0x20, 0x20), (0x85, 0x85), (0xA0, 0xA0), (0x1680, 0x1680), (0x2000, 0x200A),
   (0x2028, 0x2029), (0x202F, 0x202F), (0x205F, 0x205F), (0x3000, 0x3000)]

/-- The character is white space in the sense of Unicode. -/
def isBlank (c : Char) : Bool :=
  blankRanges.any fun r => decide (r.1 ≤ c.toNat) && decide (c.toNat ≤ r.2)

/-- Drop the white space at the end. -/
def trimEnd (text : List Char) : List Char :=
  (text.reverse.dropWhile isBlank).reverse

theorem isBlank_of_isInlineBlank {c : Char} (h : isInlineBlank c) : isBlank c := by
  simp only [isInlineBlank, Bool.or_eq_true, beq_iff_eq] at h
  rcases h with (rfl | rfl) | rfl <;> decide

/-- The white space that `trimEnd` removes. -/
def trimmed (text : List Char) : List Char :=
  (text.reverse.takeWhile isBlank).reverse

theorem trimEnd_append (text : List Char) : trimEnd text ++ trimmed text = text := by
  rw [trimEnd, trimmed, ← List.reverse_append, List.takeWhile_append_dropWhile,
    List.reverse_reverse]

theorem isBlank_of_mem_trimmed {text : List Char} {c : Char} (h : c ∈ trimmed text) :
    isBlank c := by
  have hm : c ∈ text.reverse.takeWhile isBlank := by simpa [trimmed] using h
  have := List.all_takeWhile (p := isBlank) (l := text.reverse)
  exact List.all_eq_true.mp this c hm

end ResourceDecl.Text
