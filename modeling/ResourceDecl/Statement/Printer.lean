import ResourceDecl.Statement.Basic
import ResourceDecl.Text.Lines

/-!
# Printing declarations

The printed form of a declaration: the keyword, padded to a common width if wanted, and every
field behind a separator of at least one blank. Strings are quoted as they were written, sizes
carry a small unit letter, arrays hold no blanks, and an array of rows is always bracketed.
-/

namespace ResourceDecl

open Text

/-- Layout of printed declarations. -/
structure PrintOptions where
  /-- Blanks in front of a field; one is written even for zero. -/
  fieldSeparator : Nat := 1
  /-- Least width of a keyword with fields behind it. -/
  keywordWidth : Nat := 0
deriving DecidableEq, Inhabited

/-- The blanks in front of a field. -/
def PrintOptions.separator (options : PrintOptions) : String :=
  spaces (max options.fieldSeparator 1)

/-- A string in quotes, content as written. -/
def quoted (content : String) : String :=
  "\"" ++ content ++ "\""

/-- A row of integers in brackets. -/
def printRow (values : List Int) : String :=
  "[" ++ String.intercalate "," (values.map toString) ++ "]"

/-- An integer with its unit. -/
def SizeValue.print (size : SizeValue) : String :=
  match size.unit with
  | some unit => (toString size.value).push unit.letter
  | none => toString size.value

/-- The printed form of a value; `separator` stands between the strings of a list. -/
def FieldValue.print (separator : String) : FieldValue → String
  | ident name => name
  | str content => quoted content
  | strs contents => String.intercalate separator (contents.map quoted)
  | int value => toString value
  | size value => value.print
  | intArray values => printRow values
  | intRows rows => "[" ++ String.join (rows.map printRow) ++ "]"
  | sortKey key => quoted (sortKeyMark ++ key)
  | choice _ word => word

/-- The printed form with single blanks. -/
def FieldValue.text (value : FieldValue) : String :=
  value.print (PrintOptions.separator {})

namespace Statement

/-- The printed form of a declaration, without line ending. -/
def print (options : PrintOptions) (s : Statement) : String :=
  if s.fields.isEmpty then s.keyword.spelling
  else
    padRight options.keywordWidth s.keyword.spelling ++
      String.join (s.fields.map fun field =>
        options.separator ++ field.value.print options.separator)

/-- The printed form with single blanks. -/
def text (s : Statement) : String :=
  s.print {}

end Statement

namespace Program

/-- Every declaration on a line of its own. -/
def print (options : PrintOptions) (program : Program) : String :=
  String.join (program.map fun s => s.print options ++ "\n")

/-- The printed form with single blanks. -/
def text (program : Program) : String :=
  Program.print {} program

end Program

end ResourceDecl
