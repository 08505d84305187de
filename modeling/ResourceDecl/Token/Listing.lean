import ResourceDecl.Text.Listed
import ResourceDecl.Token.Basic

/-!
# Token listings

One line for each token: its kind with what it carries, its byte range, its line and column.
-/

namespace ResourceDecl

open Text

/-- A word with a capital first letter and small other letters. -/
def capitalized (word : String) : String :=
  match word.toList with
  | [] => ""
  | first :: rest => String.ofList (first.toUpper :: rest.map Char.toLower)

/-- A kind of token in a listing. -/
def TokenKind.listed : TokenKind → String
  | keyword k => "Keyword(" ++ capitalized k.spelling ++ ")"
  | ident name => "Ident(" ++ Text.listed name ++ ")"
  | int numeral => "Int(" ++ Text.listed numeral ++ ")"
  | size numeral unit =>
    listedRecord "Size" [("digits", Text.listed numeral), ("suffix", capitalized unit.name)]
  | intArray numerals => "IntArray(" ++ listedList (numerals.map Text.listed) ++ ")"
  | intRows rows =>
    "IntArray2d(" ++ listedList (rows.map fun row => listedList (row.map Text.listed)) ++ ")"
  | string content => "String(" ++ Text.listed content ++ ")"
  | sortKey key => "SortKey(" ++ Text.listed key ++ ")"
  | newline => "Newline"
  | unreadable => "Error"
  | done => "Eof"

/-- A byte range in a listing. -/
def Text.Span.listed (span : Span) : String :=
  listedRecord "Span" [("start", toString span.start), ("end", toString span.stop)]

/-- A token in a listing. -/
def Token.listed (token : Token) : String :=
  listedRecord "Token"
    [("kind", token.kind.listed), ("span", token.span.listed), ("line", toString token.line),
     ("column", toString token.column)]

end ResourceDecl
