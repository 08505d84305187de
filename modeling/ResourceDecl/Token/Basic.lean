import ResourceDecl.Text.Span
import ResourceDecl.Language.Keyword

/-!
# Tokens

The tokens of a declaration file and the comments beside them. Integers keep their digits; a value
is computed only when a field takes the token. A string keeps its content as written, escapes
included, and one that names a sort order is told apart (`TokenKind.ofContent`).

* `TokenKind.word?`: the spelling of a token that may stand for a word of a vocabulary.
* `TokenKind.content?`: the content of a string of either kind; `content?_ofContent` says that
  telling sort keys apart loses nothing.
-/

namespace ResourceDecl

open Text

/-- What a size counts, when it does not count tiles. -/
inductive SizeUnit
  | pixels
  | frames
deriving DecidableEq, Inhabited

namespace SizeUnit

/-- The unit that a letter stands for. -/
def ofChar? : Char → Option SizeUnit
  | 'p' | 'P' => some pixels
  | 'f' | 'F' => some frames
  | _ => none

/-- The letter that printed sizes carry. -/
def letter : SizeUnit → Char
  | pixels => 'p'
  | frames => 'f'

/-- The unit's name. -/
def name : SizeUnit → String
  | pixels => "pixels"
  | frames => "frames"

@[simp] theorem ofChar?_letter (u : SizeUnit) : ofChar? u.letter = some u := by
  cases u <;> rfl

end SizeUnit

/-- What a token is. -/
inductive TokenKind
  | keyword (keyword : Keyword)
  | ident (name : String)
  /-- Sign and digits. -/
  | int (numeral : String)
  /-- Sign and digits with a unit. -/
  | size (numeral : String) (unit : SizeUnit)
  | intArray (numerals : List String)
  | intRows (rows : List (List String))
  | string (content : String)
  /-- A string that names a sort order; carries what follows `sortby:`. -/
  | sortKey (key : String)
  | newline
  /-- Stands for the rest of a line that could not be read. -/
  | unreadable
  /-- The end of the input. -/
  | done
deriving DecidableEq, Inhabited

/-- A token and its place. -/
structure Token where
  kind : TokenKind
  span : Span
  line : Nat
  column : Nat
deriving DecidableEq, Inhabited

/-- A comment and its place; `trailing` when it follows a token on its line. -/
structure Comment where
  text : String
  span : Span
  line : Nat
  trailing : Bool
deriving DecidableEq, Inhabited

/-- What a string starts with when it names a sort order. -/
def sortKeyMark : String := "sortby:"

namespace TokenKind

/-- The token of a string: a sort key if something follows the mark. -/
def ofContent (content : List Char) : TokenKind :=
  let key := content.drop sortKeyMark.length
  if sortKeyMark.toList <+: content ∧ key ≠ [] then .sortKey (String.ofList key)
  else .string (String.ofList content)

/-- The token of a word: a keyword or an identifier. -/
def ofWord (word : String) : TokenKind :=
  match Keyword.ofSpelling? word with
  | some k => .keyword k
  | none => .ident word

/-- The spelling of an identifier, a keyword or an integer without unit. -/
def word? : TokenKind → Option String
  | ident name => some name
  | int numeral => some numeral
  | keyword k => some k.spelling
  | _ => none

/-- The content of a string, sort keys included. -/
def content? : TokenKind → Option String
  | string content => some content
  | sortKey key => some (sortKeyMark ++ key)
  | _ => none

/-- The keyword, if the token is one. -/
def keyword? : TokenKind → Option Keyword
  | keyword k => some k
  | _ => none

/-- The token ends a declaration. -/
def isTerminator (kind : TokenKind) : Bool :=
  kind == .newline || kind == .done

/-- How messages describe the token. -/
def describe : TokenKind → String
  | keyword k => "keyword '" ++ k.spelling ++ "'"
  | ident name => "identifier '" ++ name ++ "'"
  | int numeral => "integer " ++ numeral
  | size numeral unit => "size " ++ numeral.push unit.letter
  | intArray _ => "integer array"
  | intRows _ => "integer array of arrays"
  | string content => "string literal \"" ++ content ++ "\""
  | sortKey key => "sort key \"" ++ sortKeyMark ++ key ++ "\""
  | newline => "end of line"
  | unreadable => "invalid token"
  | done => "end of input"

theorem content?_ofContent (content : List Char) :
    (ofContent content).content? = some (String.ofList content) := by
  simp only [ofContent]
  split
  · rename_i h
    have hm := List.prefix_iff_eq_append.mp h.1
    rw [String.length_toList] at hm
    simp [content?, ← String.toList_inj, hm]
  · rfl

theorem word?_ofWord (word : String) : (ofWord word).word? = some word := by
  rw [ofWord]
  split
  · rename_i k h
    simp [word?, Keyword.ofSpelling?_eq_some_iff.mp h]
  · rfl

end TokenKind

end ResourceDecl
