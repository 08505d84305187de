import ResourceDecl.Language.Shape
import ResourceDecl.Token.Basic
import ResourceDecl.Token.Reading

/-!
# Problems

A `Problem` is a cause and a place. The wording of a cause is in one function for each part of a
`Diagnostic`: message, notes and hints. A problem costs the line on which it arises, never the
whole file.
-/

namespace ResourceDecl

open Text

/-- Why a line is refused. -/
inductive Cause
  /-- A lexeme cannot be read; `offending` is what was read of it. -/
  | lexical (fault : LexFault) (offending : String)
  /-- The line opens with a word that is no keyword. -/
  | unknownKeyword (word : String)
  /-- The line opens with something else than a word. -/
  | keywordExpected (found : TokenKind)
  /-- A required field is missing where `found` stands. -/
  | missingField (keyword : Keyword) (field : FieldSpec) (found : TokenKind)
  /-- A word outside the vocabulary of its field. -/
  | foreignWord (keyword : Keyword) (field : FieldName) (vocabulary : Vocabulary) (word : String)
  /-- A token is left over; the fields in `expected` could have stood there. -/
  | trailing (keyword : Keyword) (found : TokenKind) (expected : List FieldSpec)
  /-- A map that has neither of its two forms. -/
  | unresolvedForm (keyword : Keyword)
  /-- An integer outside 64 bits. -/
  | overflow (numeral : String)
deriving DecidableEq, Inhabited

/-- A cause and its place. -/
structure Problem where
  cause : Cause
  span : Span
  line : Nat
  column : Nat
deriving DecidableEq, Inhabited

/-- A problem that arises at a token. -/
def Token.problem (token : Token) (cause : Cause) : Problem :=
  ⟨cause, token.span, token.line, token.column⟩

/-- The three kinds of problems. -/
inductive ProblemKind
  | lexical
  | grammatical
  | invalidValue
deriving DecidableEq, Inhabited

namespace ProblemKind

/-- How messages name the kind. -/
def label : ProblemKind → String
  | lexical => "lexical error"
  | grammatical => "syntax error"
  | invalidValue => "invalid value"

/-- The stable code that tools can rely on. -/
def code : ProblemKind → String
  | lexical => "rescomp::lexical"
  | grammatical => "rescomp::syntax"
  | invalidValue => "rescomp::semantic"

end ProblemKind

namespace Cause

/-- The kind of a cause. -/
def kind : Cause → ProblemKind
  | lexical .. => .lexical
  | foreignWord .. | overflow .. => .invalidValue
  | _ => .grammatical

/-- The wording of a cause that arises on the given line. -/
def message (line : Nat) : Cause → String
  | lexical fault offending => fault.message ++ ": " ++ offending
  | unknownKeyword word => "Unknown statement keyword '" ++ word ++ "'"
  | keywordExpected found => "Expected a statement keyword, found " ++ found.describe
  | missingField keyword field found =>
    keyword.spelling ++ " statement requires " ++ field.describe ++ ", found " ++ found.describe
  | foreignWord keyword field vocabulary word =>
    "'" ++ word ++ "' is not a valid " ++ vocabulary.name ++ " for " ++ field.text ++ " in " ++
      keyword.spelling ++ " statement"
  | trailing keyword found _ =>
    "Unexpected " ++ found.describe ++ " in " ++ keyword.spelling ++ " statement"
  | unresolvedForm keyword =>
    keyword.spelling ++ " statement on line " ++ toString line ++
      " matches neither the image form nor the TMX form"
  | overflow numeral =>
    "Integer literal " ++ numeral ++ " does not fit in a 64-bit signed integer"

/-- What the reader should know beyond the message. -/
def notes : Cause → List String
  | trailing _ _ (spec :: specs) =>
    ["expected " ++ String.intercalate ", " ((spec :: specs).map FieldSpec.describe) ++
      " or end of line"]
  | unresolvedForm keyword =>
    ["image form: " ++ keyword.spelling ++ " name \"image.png\" tileset_id ...",
     "TMX form:   " ++ keyword.spelling ++ " name \"map.tmx\" \"layer\" ..."]
  | _ => []

/-- What the reader could do. -/
def hints : Cause → List String
  | unknownKeyword word =>
    match Keyword.ofSpelling? (word.map Char.toUpper) with
    | some keyword =>
      ["Keywords are case-sensitive; did you mean '" ++ keyword.spelling ++ "'?"]
    | none => ["Every declaration starts with a keyword such as BITMAP, TILESET or SPRITE"]
  | foreignWord _ _ vocabulary _ => ["Expected one of: " ++ vocabulary.expected]
  | trailing .. =>
    ["Optional fields must be given in order; a later one cannot be supplied without the " ++
      "earlier ones"]
  | _ => []

end Cause

/-! ## Diagnostics -/

/-- A problem in words. -/
structure Diagnostic where
  kind : ProblemKind
  message : String
  span : Span
  line : Nat
  column : Nat
  notes : List String
  hints : List String
deriving DecidableEq, Inhabited

/-- A problem in words. -/
def Problem.diagnostic (p : Problem) : Diagnostic where
  kind := p.cause.kind
  message := p.cause.message p.line
  span := p.span
  line := p.line
  column := p.column
  notes := p.cause.notes
  hints := p.cause.hints

namespace Diagnostic

/-- Every problem is an error. -/
def severity (_ : Diagnostic) : String := "Error"

/-- Notes and hints, one to a line. -/
def help? (d : Diagnostic) : Option String :=
  match d.notes.map ("note: " ++ ·) ++ d.hints with
  | [] => none
  | lines => some (String.intercalate "\n" lines)

/-- The diagnostic on one line, for plain text. -/
def short (file : String) (d : Diagnostic) : String :=
  file ++ ":" ++ toString d.line ++ ":" ++ toString d.column ++ ": " ++ d.kind.label ++ ": " ++
    d.message

end Diagnostic

end ResourceDecl
