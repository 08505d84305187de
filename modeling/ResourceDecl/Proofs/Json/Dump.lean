import Mathlib.Data.List.Basic
import ResourceDecl.Proofs.Json.Unambiguity
import ResourceDecl.Statement.Json

/-!
# Programs are determined by their JSON

Every part of a program stands in its JSON value, and no two names of a table are spelled alike, so
equal values belong to equal programs, places included (`Program.json_injective`). Since a JSON text
determines its value, two programs with one JSON text in either layout are equal
(`Program.text_json_inj`).
-/

namespace ResourceDecl

open Text

/-! ## Names -/

theorem FieldName.ofText?_text (field : FieldName) : ofText? field.text = some field := by
  cases field <;> decide

theorem FieldName.text_injective {a b : FieldName} (h : a.text = b.text) : a = b := by
  have hb := ofText?_text b
  rw [← h, ofText?_text a] at hb
  exact Option.some.inj hb

theorem Form.text_injective {a b : Form} : a.text = b.text → a = b := by
  cases a <;> cases b <;> decide

theorem SizeUnit.name_injective {a b : SizeUnit} : a.name = b.name → a = b := by
  cases a <;> cases b <;> decide

/-! ## Values of fields -/

namespace FieldValue

theorem size_json_injective {a b : SizeValue} (h : (size a).json = (size b).json) : a = b := by
  obtain ⟨value, unit⟩ := a
  obtain ⟨value', unit'⟩ := b
  cases unit with
  | none =>
    cases unit' with
    | none => simpa [json, json.tagged] using h
    | some unit' => simp [json, json.tagged] at h
  | some unit =>
    cases unit' with
    | none => simp [json, json.tagged] at h
    | some unit' =>
      obtain ⟨rfl, hname⟩ : value = value' ∧ unit.name = unit'.name := by
        simpa [json, json.tagged] using h
      rw [SizeUnit.name_injective hname]

theorem row_injective {values others : List Int} (h : json.row values = json.row others) :
    values = others :=
  List.map_injective_iff.mpr (fun _ _ => Json.number.inj) (Json.array.inj h)

theorem json_injective {a b : FieldValue} (h : a.json = b.json) : a = b := by
  cases a <;> cases b
  case size.size => exact congrArg size (size_json_injective h)
  -- values of different classes are told apart by the name of the class
  all_goals simp [json, json.tagged] at h
  case ident.ident => exact congrArg ident h
  case str.str => exact congrArg str h
  case strs.strs => exact congrArg strs (List.map_injective_iff.mpr (fun _ _ => Json.string.inj) h)
  case int.int => exact congrArg int h
  case intArray.intArray => exact congrArg intArray (row_injective h)
  case intRows.intRows =>
    exact congrArg intRows (List.map_injective_iff.mpr (fun _ _ => row_injective) h)
  case sortKey.sortKey => exact congrArg sortKey h
  case choice.choice => rw [Vocabulary.name_injective h.1, h.2]

end FieldValue

/-! ## Declarations -/

theorem Text.Span.json_injective {a b : Span} (h : a.json = b.json) : a = b := by
  obtain ⟨start, stop⟩ := a
  obtain ⟨start', stop'⟩ := b
  simpa [json, Int.natCast_inj] using h

theorem Field.json_injective {a b : Field} (h : a.json = b.json) : a = b := by
  obtain ⟨field, value, span⟩ := a
  obtain ⟨field', value', span'⟩ := b
  simp only [json, Json.object.injEq, List.cons.injEq, Prod.mk.injEq, true_and, Json.string.injEq,
    and_true] at h
  obtain ⟨hname, hvalue, hspan⟩ := h
  rw [FieldName.text_injective hname, FieldValue.json_injective hvalue,
    Text.Span.json_injective hspan]

/-- A declaration with a form has one member more than a declaration without. -/
theorem Statement.json_injective {a b : Statement} (h : a.json = b.json) : a = b := by
  obtain ⟨keyword, form, fields, line, span⟩ := a
  obtain ⟨keyword', form', fields', line', span'⟩ := b
  have hform : form = form' := by
    cases form with
    | none =>
      cases form' with
      | none => rfl
      | some form' => simp [json] at h
    | some form =>
      cases form' with
      | none => simp [json] at h
      | some form' =>
        have htext : form.text = form'.text := by
          simp only [json, Json.object.injEq, List.cons_append, List.nil_append, List.cons.injEq,
            Prod.mk.injEq, Json.string.injEq] at h
          exact h.2.1.2
        rw [Form.text_injective htext]
  subst hform
  obtain ⟨hkeyword, hfields, hline, hspan⟩ : keyword.spelling = keyword'.spelling ∧
      fields.map Field.json = fields'.map Field.json ∧ line = line' ∧ span.json = span'.json := by
    cases form <;> simpa [json, Int.natCast_inj] using h
  rw [Keyword.spelling_injective hkeyword,
    List.map_injective_iff.mpr (fun _ _ => Field.json_injective) hfields, hline,
    Text.Span.json_injective hspan]

theorem Program.json_injective {p q : Program} (h : Program.json p = Program.json q) : p = q := by
  have hstatements : p.map Statement.json = q.map Statement.json := by
    simpa [Program.json] using h
  exact List.map_injective_iff.mpr (fun _ _ => Statement.json_injective) hstatements

/-- Programs with one JSON text are equal, in either layout. -/
theorem Program.text_json_inj (style : Json.Style) (p q : Program) :
    (Program.json p).text style = (Program.json q).text style ↔ p = q := by
  rw [Json.text_inj]
  constructor
  · exact Program.json_injective
  · rintro rfl
    rfl

end ResourceDecl
