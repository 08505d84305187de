import ResourceDecl.Proofs.Statements.Printed

/-!
# The ends of printed declarations

A printed declaration ends in a character that is not white space in the sense of Unicode
(`Statement.WellFormed.endsVisibly_print`), and so does a comment (`IsComment.endsVisibly`): words
and integers consist of such characters, strings end in a quote and arrays in a bracket.
-/

namespace ResourceDecl

open Text

/-- The text has a last character, and it is not white space. -/
def EndsVisibly (text : List Char) : Prop :=
  ∃ front c, text = front ++ [c] ∧ isBlank c = false

theorem endsVisibly_concat (front : List Char) {c : Char} (hc : isBlank c = false) :
    EndsVisibly (front ++ [c]) :=
  ⟨front, c, rfl, hc⟩

theorem EndsVisibly.append_front {text : List Char} (h : EndsVisibly text) (front : List Char) :
    EndsVisibly (front ++ text) := by
  obtain ⟨body, c, rfl, hc⟩ := h
  rw [← List.append_assoc]
  exact endsVisibly_concat _ hc

theorem endsVisibly_of_forall {text : List Char} (hne : text ≠ [])
    (h : ∀ c ∈ text, isBlank c = false) : EndsVisibly text := by
  obtain ⟨front, c, rfl⟩ := (List.eq_nil_or_concat' text).resolve_left hne
  exact endsVisibly_concat front (h c (by simp))

/-! ## Words and integers -/

theorem isBlank_of_isWordChar {c : Char} (h : isWordChar c) : isBlank c = false := by
  have hrange : (0x30 ≤ c.toNat ∧ c.toNat ≤ 0x39) ∨ (0x41 ≤ c.toNat ∧ c.toNat ≤ 0x5A) ∨
      (0x61 ≤ c.toNat ∧ c.toNat ≤ 0x7A) ∨ c.toNat = 0x5F := by
    simp only [isWordChar, Char.isAlphanum, Bool.or_eq_true, beq_iff_eq] at h
    rcases h with (hletter | hdigit) | rfl
    · rcases Bool.or_eq_true_iff.mp hletter with hupper | hlower
      · exact .inr (.inl (of_decide_eq_true hupper))
      · obtain ⟨hlow, hhigh⟩ := Bool.and_eq_true_iff.mp hlower
        exact .inr (.inr (.inl ⟨of_decide_eq_true hlow, of_decide_eq_true hhigh⟩))
    · obtain ⟨hlow, hhigh⟩ := Bool.and_eq_true_iff.mp hdigit
      exact .inl ⟨of_decide_eq_true hlow, of_decide_eq_true hhigh⟩
    · exact .inr (.inr (.inr rfl))
  simp only [isBlank, blankRanges, List.any_cons, List.any_nil, Bool.or_false, Bool.or_eq_false_iff,
    Bool.and_eq_false_iff, decide_eq_false_iff_not]
  omega

theorem endsVisibly_word {word : String} (h : isWord word) : EndsVisibly word.toList := by
  unfold isWord at h
  split at h
  · cases h
  · rename_i first rest hword
    obtain ⟨hfirst, hrest⟩ := Bool.and_eq_true_iff.mp h
    rw [hword]
    refine endsVisibly_of_forall (List.cons_ne_nil _ _) (List.forall_mem_cons.mpr ⟨?_, ?_⟩)
    · apply isBlank_of_isWordChar
      simp only [isWordStart, isWordChar, Char.isAlphanum, Bool.or_eq_true] at hfirst ⊢
      exact hfirst.imp_left .inl
    · exact fun c hc => isBlank_of_isWordChar (List.all_eq_true.mp hrest c hc)

theorem endsVisibly_toString (n : Int) : EndsVisibly (toString n).toList := by
  rw [toList_toString]
  refine (endsVisibly_of_forall (printedDigits_ne_nil n) fun c hc => ?_).append_front _
  apply isBlank_of_isWordChar
  simp [isWordChar, Char.isAlphanum, isDigit_of_mem_printedDigits hc]

/-! ## Values -/

theorem endsVisibly_quoted (content : String) : EndsVisibly (quoted content).toList := by
  rw [quoted, String.toList_append]
  exact endsVisibly_concat _ (by decide)

theorem endsVisibly_bracket (text : String) : EndsVisibly (text ++ "]").toList := by
  rw [String.toList_append]
  exact endsVisibly_concat _ (by decide)

theorem endsVisibly_strs (separator : String) {contents : List String} (hne : contents ≠ []) :
    EndsVisibly (FieldValue.print separator (.strs contents)).toList := by
  induction contents with
  | nil => exact absurd rfl hne
  | cons content contents ih =>
    cases contents with
    | nil => simpa [FieldValue.print] using endsVisibly_quoted content
    | cons next contents =>
      have hrest := (ih (by simp)).append_front ((quoted content).toList ++ separator.toList)
      simpa [FieldValue.print] using hrest

theorem FieldClass.Admits.endsVisibly {accepts : FieldClass} {value : FieldValue}
    (h : accepts.Admits value) (separator : String) :
    EndsVisibly (value.print separator).toList := by
  cases h with
  | ident hname => exact endsVisibly_word hname.1
  | reference hname => exact endsVisibly_word hname.1
  | str _ => exact endsVisibly_quoted _
  | quotedReference _ => exact endsVisibly_quoted _
  | sortKey _ _ => exact endsVisibly_quoted _
  | strs hne _ => exact endsVisibly_strs separator hne
  | int _ => exact endsVisibly_toString _
  | time _ => exact endsVisibly_toString _
  | @size size _ =>
    obtain ⟨value, unit⟩ := size
    cases unit with
    | none => exact endsVisibly_toString value
    | some unit =>
      have hletter : isBlank unit.letter = false := by cases unit <;> decide
      simpa [FieldValue.print, SizeValue.print] using endsVisibly_concat _ hletter
  | times _ _ => exact endsVisibly_bracket _
  | timeRows _ _ => exact endsVisibly_bracket _
  | choice hword =>
    rcases isWord_or_toString_of_mem hword with hword | ⟨-, n, rfl⟩
    · exact endsVisibly_word hword
    · exact endsVisibly_toString n

/-! ## Lines -/

theorem endsVisibly_fields {specs : List FieldSpec} {fields : List Field}
    (h : List.Forall₂ FieldSpec.Admits specs fields) (hne : fields ≠ []) (separator : String) :
    EndsVisibly
      (String.join (fields.map fun field => separator ++ field.value.print separator)).toList := by
  induction h with
  | nil => exact absurd rfl hne
  | @cons spec field specs fields hfield hrest ih =>
    by_cases hlast : fields = []
    · subst hlast
      simpa using (hfield.2.endsVisibly separator).append_front separator.toList
    · have htail := (ih hlast).append_front
        (separator.toList ++ (field.value.print separator).toList)
      simpa [List.append_assoc] using htail

theorem Statement.WellFormed.endsVisibly_print {s : Statement} (h : s.WellFormed)
    (options : PrintOptions) : EndsVisibly (s.print options).toList := by
  obtain ⟨shape, lengths, -, -, hfields⟩ := h.fields
  obtain ⟨gap, -, hnil, hprint⟩ := s.toList_print options
  rw [hprint]
  by_cases hempty : s.fields = []
  · have hword : isWord s.keyword.spelling := by cases s.keyword <;> decide
    simpa [hempty, hnil hempty] using endsVisibly_word hword
  · exact ((endsVisibly_fields hfields hempty _).append_front gap).append_front _

theorem IsComment.endsVisibly {text : List Char} (h : IsComment text) : EndsVisibly text := by
  obtain ⟨⟨first, tail, rfl, -⟩, htrimmed, -⟩ := h
  obtain ⟨front, c, heq⟩ := (List.eq_nil_or_concat' (first :: tail)).resolve_left
    (List.cons_ne_nil _ _)
  rw [heq] at htrimmed ⊢
  refine endsVisibly_concat front ?_
  have hlast := List.rdropWhile_eq_self_iff.mp htrimmed (by simp)
  simpa using hlast

end ResourceDecl
