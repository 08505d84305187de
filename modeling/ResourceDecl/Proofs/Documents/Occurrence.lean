import ResourceDecl.Proofs.Documents.Reprint

/-!
# Which declarations occur

The declarations that sources declare are the well-formed ones, no more and no fewer: what is read
is well-formed, and a well-formed declaration is read from its printed form.

* `Statement.WellFormed.congr`: being well-formed is a matter of shape.
* `Statement.WellFormed.nodup_fieldNames`, `Statement.WellFormed.get?_eq`: fields have different
  names, so a field is found by its name.
* `occurs_iff_wellFormed`: the result.
-/

namespace ResourceDecl

/-! ## Shape -/

theorem forall₂_admits_iff {specs : List FieldSpec} {fields : List Field} :
    List.Forall₂ FieldSpec.Admits specs fields ↔
      List.Forall₂ (fun spec (p : FieldName × FieldValue) =>
        p.1 = spec.name ∧ spec.accepts.Admits p.2) specs (namedValues fields) := by
  rw [namedValues, List.forall₂_map_right_iff]
  rfl

namespace Statement.WellFormed

variable {s t : Statement}

/-- Whether a declaration is well-formed does not depend on its places. -/
theorem congr (h : s.WellFormed) (hsame : s.SameShape t) : t.WellFormed := by
  obtain ⟨hkeyword, hform, hcontent⟩ := hsame
  have hnamed : namedValues s.fields = namedValues t.fields := hcontent
  refine ⟨?_, fun {form} hf => ?_, fun hobjects {content} hvalue => ?_⟩
  · obtain ⟨shape, lengths, hshape, hlengths, hfields⟩ := h.fields
    rw [hkeyword, hform] at hshape
    rw [forall₂_admits_iff, hnamed, ← forall₂_admits_iff] at hfields
    exact ⟨shape, lengths, hshape, hlengths, hfields⟩
  · rw [h.form (hform.trans hf)]
    simp only [AnnounceTmx, valueAt?_eq_of_namedValues hnamed]
  · rw [← valueAt?_eq_of_namedValues hnamed] at hvalue
    exact h.sorted (hkeyword.trans hobjects) hvalue

/-- Only maps have a form, and they all do. -/
theorem form_ne_none_iff (h : s.WellFormed) :
    s.form ≠ none ↔ s.keyword = .tilemap ∨ s.keyword = .map := by
  obtain ⟨shape, lengths, hshape, -⟩ := h.fields
  constructor
  · intro hform
    obtain ⟨form, hform⟩ := Option.ne_none_iff_exists'.mp hform
    rw [hform] at hshape
    exact (Keyword.required_of_form hshape).1
  · intro hmap hnone
    rw [hnone] at hshape
    obtain ⟨htilemap, hmap'⟩ := Keyword.ne_map_of_shape?_none hshape
    exact hmap.elim htilemap hmap'

end Statement.WellFormed

/-! ## Names of fields -/

theorem Shape.present_sublist (shape : Shape) (lengths : List Nat) :
    (shape.present lengths).Sublist shape.fields := by
  have hchains (lengths : List Nat) (chains : List (List FieldSpec)) :
      (List.zipWith List.take lengths chains).flatten.Sublist chains.flatten := by
    induction chains generalizing lengths with
    | nil => simp
    | cons chain chains ih =>
      cases lengths with
      | nil => exact List.nil_sublist _
      | cons length lengths => exact (List.take_sublist length chain).append (ih lengths)
  exact (List.Sublist.refl _).append (hchains lengths shape.chains)

theorem names_eq_of_forall₂_admits {specs : List FieldSpec} {fields : List Field}
    (h : List.Forall₂ FieldSpec.Admits specs fields) :
    fields.map Field.name = specs.map FieldSpec.name := by
  induction h with
  | nil => rfl
  | cons hfield _ ih => rw [List.map_cons, List.map_cons, ih, hfield.1]

namespace Statement

theorem WellFormed.nodup_fieldNames {s : Statement} (h : s.WellFormed) : s.fieldNames.Nodup := by
  obtain ⟨shape, lengths, hshape, -, hfields⟩ := h.fields
  rw [fieldNames, names_eq_of_forall₂_admits hfields]
  exact (Shape.nodup_fields hshape).sublist ((shape.present_sublist lengths).map FieldSpec.name)

/-- A field is found by its name if no other field has that name. -/
theorem get?_eq_of_nodup {s : Statement} (h : s.fieldNames.Nodup) {field : Field}
    (hm : field ∈ s.fields) : s.get? field.name = some field.value := by
  have hfind : s.fields.find? (fun f => f.name == field.name) = some field := by
    obtain ⟨front, rest, heq⟩ := List.append_of_mem hm
    refine List.find?_eq_some_iff_append.mpr ⟨by simp, front, rest, heq, fun other hother => ?_⟩
    rw [fieldNames, heq, List.map_append, List.nodup_append] at h
    have hne := h.2.2 other.name (List.mem_map_of_mem hother) field.name (by simp)
    simpa using hne
  rw [get?, hfind]
  rfl

/-! ## Occurrence -/

/-- The declaration is one that some source declares, its places aside. -/
def Occurs (s : Statement) : Prop :=
  ∃ source, ∃ t ∈ (Document.ofSource source).program, t.SameShape s

theorem WellFormed.occurs {s : Statement} (h : s.WellFormed) : s.Occurs := by
  have hread := Document.ofSource_print_of_wellFormed (p := [s]) (by simpa using h) ⟨1, 0⟩
  obtain ⟨t, rest, hcopy, -, hprogram⟩ := List.forall₂_cons_right_iff.mp hread.2.2
  exact ⟨_, t, by rw [hprogram]; exact List.mem_cons_self, hcopy.1⟩

theorem Occurs.wellFormed {s : Statement} (h : s.Occurs) : s.WellFormed := by
  obtain ⟨source, t, hm, hsame⟩ := h
  exact (Document.wellFormed_of_mem_program hm).congr hsame

end Statement

/-- A declaration occurs in some source exactly if it is well-formed: it has a form exactly if it
is a map, its fields have different names and are found by them, and names, values, the choice of
the form and sort keys are as `WellFormed` says. -/
theorem occurs_iff_wellFormed (s : Statement) :
    s.Occurs ↔
      (s.form ≠ none ↔ s.keyword = .tilemap ∨ s.keyword = .map) ∧ s.fieldNames.Nodup ∧
        (∀ field ∈ s.fields, s.get? field.name = some field.value) ∧ s.WellFormed := by
  constructor
  · intro hoccurs
    have hwell := hoccurs.wellFormed
    have hnodup := hwell.nodup_fieldNames
    exact ⟨hwell.form_ne_none_iff, hnodup, fun field => Statement.get?_eq_of_nodup hnodup, hwell⟩
  · rintro ⟨-, -, -, hwell⟩
    exact hwell.occurs

end ResourceDecl
