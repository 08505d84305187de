import ResourceDecl.Language.Shape
import ResourceDecl.Token.Basic

/-!
# Declarations

A declaration is a keyword with a list of named values in the order in which they were written.
Only values that were written are present. `Statement.SameShape` compares declarations and leaves
their places in the source aside.
-/

namespace ResourceDecl

open Text

/-- A width or height; without unit it counts tiles. -/
structure SizeValue where
  value : Int
  unit : Option SizeUnit
deriving DecidableEq, Inhabited

/-- The value of a field. -/
inductive FieldValue
  | ident (name : String)
  | str (content : String)
  | strs (contents : List String)
  | int (value : Int)
  | size (value : SizeValue)
  | intArray (values : List Int)
  | intRows (rows : List (List Int))
  | sortKey (key : String)
  | choice (vocabulary : Vocabulary) (word : String)
deriving DecidableEq, Inhabited

/-- A named value and its place. -/
structure Field where
  name : FieldName
  value : FieldValue
  span : Span
deriving DecidableEq, Inhabited

/-- A declaration and its place. -/
structure Statement where
  keyword : Keyword
  form : Option Form
  fields : List Field
  line : Nat
  span : Span
deriving DecidableEq, Inhabited

/-- The declarations of a source in order. -/
abbrev Program := List Statement

namespace FieldValue

/-- The text of an identifier, a string or a sort key. -/
def text? : FieldValue → Option String
  | ident text | str text | sortKey text => some text
  | _ => none

/-- The value of an integer without unit. -/
def int? : FieldValue → Option Int
  | int value => some value
  | _ => none

/-- The word of a field with a vocabulary. -/
def word? : FieldValue → Option String
  | choice _ word => some word
  | _ => none

end FieldValue

namespace Statement

/-- The value of a field. -/
def get? (s : Statement) (field : FieldName) : Option FieldValue :=
  (s.fields.find? fun f => f.name == field).map Field.value

/-- The field is present. -/
def has (s : Statement) (field : FieldName) : Bool :=
  (s.get? field).isSome

/-- The text of a field that has one. -/
def text? (s : Statement) (field : FieldName) : Option String :=
  (s.get? field).bind FieldValue.text?

/-- The value of an integer field. -/
def int? (s : Statement) (field : FieldName) : Option Int :=
  (s.get? field).bind FieldValue.int?

/-- The word of a field with a vocabulary. -/
def word? (s : Statement) (field : FieldName) : Option String :=
  (s.get? field).bind FieldValue.word?

/-- The name that the declaration gives to its resource. -/
def name? (s : Statement) : Option String :=
  s.text? .name

/-- The names of the fields in order. -/
def fieldNames (s : Statement) : List FieldName :=
  s.fields.map Field.name

/-- Names and values of the fields in order. -/
def content (s : Statement) : List (FieldName × FieldValue) :=
  s.fields.map fun f => (f.name, f.value)

/-- The declarations are equal but for their places. -/
def SameShape (s t : Statement) : Prop :=
  s.keyword = t.keyword ∧ s.form = t.form ∧ s.content = t.content

instance (s t : Statement) : Decidable (SameShape s t) :=
  inferInstanceAs (Decidable (_ ∧ _ ∧ _))

theorem SameShape.refl (s : Statement) : SameShape s s :=
  ⟨rfl, rfl, rfl⟩

theorem SameShape.symm {s t : Statement} (h : SameShape s t) : SameShape t s :=
  ⟨h.1.symm, h.2.1.symm, h.2.2.symm⟩

theorem SameShape.trans {s t u : Statement} (h : SameShape s t) (k : SameShape t u) :
    SameShape s u :=
  ⟨h.1.trans k.1, h.2.1.trans k.2.1, h.2.2.trans k.2.2⟩

end Statement

/-- The declarations with this keyword. -/
def Program.ofKeyword (program : Program) (k : Keyword) : Program :=
  program.filter fun s => s.keyword == k

end ResourceDecl
