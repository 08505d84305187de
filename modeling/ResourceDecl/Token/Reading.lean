import ResourceDecl.Text.Blank

/-!
# Reading from a text

A reader takes the rest of a text and gives what it read, or what is wrong, together with the rest
that it did not take. The rest is kept in both cases: what a faulty lexeme had consumed is quoted
in the message.
-/

namespace ResourceDecl

open Text

/-- What is wrong with a lexeme. -/
inductive LexFault
  | unexpectedCharacter
  | unterminatedString
  | malformedEscape
  | digitsExpected
  | misplacedSeparator
  | leadingZero
  | malformedInteger
  | emptyArray
  | elementExpected
  | separatorExpected
  | bracketExpected
deriving DecidableEq, Inhabited

/-- The wording of a fault. -/
def LexFault.message : LexFault → String
  | unexpectedCharacter => "Unexpected character"
  | unterminatedString => "Unterminated string literal"
  | malformedEscape => "Malformed escape sequence in string literal"
  | digitsExpected => "Expected digits after '-'"
  | misplacedSeparator => "Misplaced digit separator in integer literal"
  | leadingZero => "Invalid leading zero in integer literal"
  | malformedInteger => "Invalid integer literal"
  | emptyArray => "Empty integer array"
  | elementExpected => "Expected an integer in array literal"
  | separatorExpected => "Expected ',' or ']' in integer array"
  | bracketExpected => "Expected '[' or ']' in nested integer array"

/-- A result of reading and the rest of the text. -/
abbrev Reading (α : Type) := Except LexFault α × List Char

/-- Change what was read. -/
def Reading.map {α β : Type} (f : α → β) (reading : Reading α) : Reading β :=
  (reading.1.map f, reading.2)

/-- Letters, digits and the underscore, all ASCII. -/
def isWordChar (c : Char) : Bool :=
  c.isAlphanum || c == '_'

/-- What a word may start with. -/
def isWordStart (c : Char) : Bool :=
  c.isAlpha || c == '_'

/-- Drop the blanks in front. -/
def skipBlanks (rest : List Char) : List Char :=
  rest.dropWhile isInlineBlank

theorem length_dropWhile_le {α : Type} (p : α → Bool) (l : List α) :
    (l.dropWhile p).length ≤ l.length :=
  (List.dropWhile_suffix p).length_le

theorem length_skipBlanks_le (rest : List Char) : (skipBlanks rest).length ≤ rest.length :=
  length_dropWhile_le _ _

end ResourceDecl
