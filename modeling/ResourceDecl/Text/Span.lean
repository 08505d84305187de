/-!
# Places in a text

A `Span` is a range of byte offsets, a `Position` a line and a column, both counted from 1. The
column counts characters. `position?` leads from an offset to a position: it walks over the
characters in front of the offset. An offset beyond the end stands for the end, and one inside a
character has no position.
-/

namespace ResourceDecl.Text

/-- A range of byte offsets; `stop` is the first offset behind it. -/
structure Span where
  start : Nat
  stop : Nat
deriving DecidableEq, Inhabited

namespace Span

/-- The least range that covers both. -/
def join (a b : Span) : Span :=
  ⟨min a.start b.start, max a.stop b.stop⟩

/-- Number of bytes; an inverted range has none. -/
def length (s : Span) : Nat :=
  s.stop - s.start

end Span

/-- A line and a column, both counted from 1. -/
structure Position where
  line : Nat
  column : Nat
deriving DecidableEq, Inhabited

namespace Position

/-- Where every text begins. -/
def first : Position := ⟨1, 1⟩

/-- The position behind one more character. -/
def advance (p : Position) (c : Char) : Position :=
  if c = '\n' then ⟨p.line + 1, 1⟩ else ⟨p.line, p.column + 1⟩

end Position

/-- The position `offset` bytes into a text that begins at `p`. -/
def positionFrom? (p : Position) : List Char → Nat → Option Position
  | _, 0 => some p
  | [], _ + 1 => some p
  | c :: text, offset + 1 =>
    if c.utf8Size ≤ offset + 1 then
      positionFrom? (p.advance c) text (offset + 1 - c.utf8Size)
    else
      none

/-- The position of a byte offset. -/
def position? (text : List Char) (offset : Nat) : Option Position :=
  positionFrom? .first text offset

end ResourceDecl.Text
