import Mathlib.Data.List.Forall2
import ResourceDecl.Proofs.Grammar.LineReaders

/-!
# The grammar of declarations

What may stand behind a keyword, said without a reader: nothing here looks at tokens in order or
commits to a choice.

* `FieldClass.Accepts`, `FieldSpec.Takes`: the field that a position makes of its tokens.
* `Shape.Splits`: the tokens split into the required fields and into prefixes of the chains; the
  numbers in `lengths` say how much of each chain is present.
* `Shape.SplitsLongest`: no other split takes more of an earlier chain.
* `Keyword.Selects`: the form that the first three tokens select.
* `Statement.Derives`: a declaration that the grammar gives to a line of tokens.
-/

namespace ResourceDecl

open Text

/-! ## Fields -/

/-- The value that a class of fields makes of one token. -/
inductive FieldClass.Accepts : FieldClass → TokenKind → FieldValue → Prop
  | ident (name : String) : Accepts .ident (.ident name) (.ident name)
  | str {kind : TokenKind} {content : String} :
      kind.content? = some content → Accepts .str kind (.str content)
  | reference (name : String) : Accepts .identOrStr (.ident name) (.ident name)
  | quotedReference {kind : TokenKind} {content : String} :
      kind.content? = some content → Accepts .identOrStr kind (.str content)
  | sortKey (key : String) : Accepts .sortKey (.sortKey key) (.sortKey key)
  | int {numeral : String} {value : Int} :
      readInt64 numeral = some value → Accepts .int (.int numeral) (.int value)
  | tiles {numeral : String} {value : Int} :
      readInt64 numeral = some value → Accepts .size (.int numeral) (.size ⟨value, none⟩)
  | size {numeral : String} {value : Int} (unit : SizeUnit) :
      readInt64 numeral = some value →
        Accepts .size (.size numeral unit) (.size ⟨value, some unit⟩)
  | time {numeral : String} {value : Int} :
      readInt64 numeral = some value → Accepts .time (.int numeral) (.int value)
  | times {numerals : List String} {values : List Int} :
      List.Forall₂ (fun numeral value => readInt64 numeral = some value) numerals values →
        Accepts .time (.intArray numerals) (.intArray values)
  | timeRows {rows : List (List String)} {values : List (List Int)} :
      List.Forall₂ (List.Forall₂ fun numeral value => readInt64 numeral = some value)
          rows values →
        Accepts .time (.intRows rows) (.intRows values)
  | choice {vocabulary : Vocabulary} {kind : TokenKind} {word : String} :
      kind.word? = some word → word ∈ vocabulary →
        Accepts (.choice vocabulary) kind (.choice vocabulary word)

/-- The field that a position makes of a run of tokens: a list of strings takes one or more of
them, every other position takes one token. -/
inductive FieldSpec.Takes (spec : FieldSpec) : List Token → Field → Prop
  | one {token : Token} {value : FieldValue} :
      spec.accepts.Accepts token.kind value → Takes spec [token] ⟨spec.name, value, token.span⟩
  | strings {first : Token} {more : List Token} {contents : List String} :
      spec.accepts = .strs →
        List.Forall₂ (fun (token : Token) content => token.kind.content? = some content)
          (first :: more) contents →
        Takes spec (first :: more)
          ⟨spec.name, .strs contents,
            more.foldl (fun span token => span.join token.span) first.span⟩

/-- The tokens are those of the positions, one position behind the other. -/
inductive Fills : List FieldSpec → List Token → List Field → Prop
  | nil : Fills [] [] []
  | cons {spec : FieldSpec} {specs : List FieldSpec} {head tail : List Token} {field : Field}
      {fields : List Field} :
      spec.Takes head field → Fills specs tail fields →
        Fills (spec :: specs) (head ++ tail) (field :: fields)

theorem Fills.cons_one {spec : FieldSpec} {specs : List FieldSpec} {token : Token}
    {tokens : List Token} {value : FieldValue} {fields : List Field}
    (ha : spec.accepts.Accepts token.kind value) (hf : Fills specs tokens fields) :
    Fills (spec :: specs) (token :: tokens) (⟨spec.name, value, token.span⟩ :: fields) :=
  @Fills.cons spec specs [token] tokens _ fields (.one ha) hf

/-- The tokens are those of a prefix of each chain, one chain behind the other. -/
inductive FillsChains : List (List FieldSpec) → List Nat → List Token → List Field → Prop
  | nil : FillsChains [] [] [] []
  | cons {chain : List FieldSpec} {chains : List (List FieldSpec)} {length : Nat}
      {lengths : List Nat} {head tail : List Token} {fields more : List Field} :
      length ≤ chain.length → Fills (chain.take length) head fields →
        FillsChains chains lengths tail more →
        FillsChains (chain :: chains) (length :: lengths) (head ++ tail) (fields ++ more)

namespace Shape

/-- The tokens split completely into the required fields and prefixes of the chains. -/
inductive Splits (shape : Shape) (lengths : List Nat) : List Token → List Field → Prop
  | parts {head tail : List Token} {required optional : List Field} :
      Fills shape.required head required → FillsChains shape.chains lengths tail optional →
        Splits shape lengths (head ++ tail) (required ++ optional)

/-- A split that makes earlier chains as long as possible. -/
structure SplitsLongest (shape : Shape) (lengths : List Nat) (tokens : List Token)
    (fields : List Field) : Prop where
  splits : shape.Splits lengths tokens fields
  longest : ∀ {others : List Nat} {otherFields : List Field},
    shape.Splits others tokens otherFields → others = lengths ∨ List.Lex (· < ·) others lengths

end Shape

/-! ## Forms -/

/-- The path ends in `.tmx`, in any case. -/
def NamesTmx (path : String) : Prop :=
  ∃ stem extension, path.toList = stem ++ '.' :: extension ∧
    extension.map Char.toLower = ['t', 'm', 'x']

/-- The rows of the table of forms: name, file, third token, form. -/
inductive FormRow : TokenKind → TokenKind → TokenKind → Form → Prop
  | reference {name path tileset : String} {file : TokenKind} :
      file.content? = some path → FormRow (.ident name) file (.ident tileset) .image
  | layer {name path layer : String} {file third : TokenKind} :
      file.content? = some path → third.content? = some layer → NamesTmx path →
        FormRow (.ident name) file third .tmx
  | quotedReference {name path tileset : String} {file third : TokenKind} :
      file.content? = some path → third.content? = some tileset → ¬ NamesTmx path →
        FormRow (.ident name) file third .image

/-- The form that the tokens behind a keyword select; only the keywords of maps have one. -/
inductive Keyword.Selects (k : Keyword) : List Token → Option Form → Prop
  | none {tokens : List Token} : k ≠ .tilemap → k ≠ .map → Selects k tokens none
  | row {name file third : Token} {rest : List Token} {form : Form} :
      k = .tilemap ∨ k = .map → FormRow name.kind file.kind third.kind form →
        Selects k (name :: file :: third :: rest) (some form)

/-! ## Declarations -/

/-- The end of the last field, or of the keyword if there is none. -/
def stopOf (opener : Token) (fields : List Field) : Nat :=
  (fields.getLast?.map fun field => field.span.stop).getD opener.span.stop

/-- The grammar gives the declaration to the line of `opener` and `tokens`. -/
structure Statement.Derives (s : Statement) (opener : Token) (tokens : List Token) : Prop where
  keyword : opener.kind = .keyword s.keyword
  form : s.keyword.Selects tokens s.form
  fields : ∃ shape lengths, s.keyword.shape? s.form = some shape ∧
    shape.SplitsLongest lengths tokens s.fields
  line : s.line = opener.line
  span : s.span = ⟨opener.span.start, stopOf opener s.fields⟩

end ResourceDecl
