import ResourceDecl.Statement.Basic
import ResourceDecl.Text.Json

/-!
# Declarations as JSON

The JSON value of a program shows every part of it, places included. An absent form is left out;
an absent unit is null.
-/

namespace ResourceDecl

open Text

/-- Start and end of a range. -/
def Text.Span.json (span : Span) : Json :=
  .object [("start", .number span.start), ("end", .number span.stop)]

/-- A value under the name of its class. -/
def FieldValue.json (value : FieldValue) : Json :=
  match value with
  | ident name => tagged "ident" (.string name)
  | str content => tagged "str" (.string content)
  | strs contents => tagged "strs" (.array (contents.map .string))
  | int value => tagged "int" (.number value)
  | size ⟨value, unit⟩ =>
    let unit := match unit with
      | some unit => .string unit.name
      | none => .null
    tagged "size" (.object [("value", .number value), ("suffix", unit)])
  | intArray values => tagged "int_array" (row values)
  | intRows rows => tagged "int_array2d" (.array (rows.map row))
  | sortKey key => tagged "sort_key" (.string key)
  | choice vocabulary word =>
    tagged "enum" (.object [("vocab", .string vocabulary.name), ("spelling", .string word)])
where
  /-- A payload with the name of its class. -/
  tagged (type : String) (payload : Json) : Json :=
    .object [("type", .string type), ("value", payload)]
  /-- A row of integers. -/
  row (values : List Int) : Json :=
    .array (values.map .number)

/-- Name, value and place of a field. -/
def Field.json (field : Field) : Json :=
  .object
    [("name", .string field.name.text), ("value", field.value.json), ("span", field.span.json)]

/-- All parts of a declaration. -/
def Statement.json (s : Statement) : Json :=
  let form := match s.form with
    | some form => [("form", .string form.text)]
    | none => []
  .object
    ([("kind", .string s.keyword.spelling)] ++ form ++
      [("fields", .array (s.fields.map Field.json)), ("line", .number s.line),
       ("span", s.span.json)])

/-- All declarations of a program. -/
def Program.json (program : Program) : Json :=
  .object [("statements", .array (program.map Statement.json))]

end ResourceDecl
