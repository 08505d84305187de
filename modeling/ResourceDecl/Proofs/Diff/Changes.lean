import ResourceDecl.Proofs.Diff.Determination
import ResourceDecl.Proofs.Layout.Appearance

/-!
# Which changes a diff shows

A source is compared with its formatted text as a whole, but shown line by line. The diff of a
source that is to be formatted holds at least one entry, unless nothing but line endings and empty
lines at the end make the difference; then it is empty (`formatDiff_of_unformatted`).
-/

namespace ResourceDecl

open Text

/-- The diff is a row of entries, at least one, each of a line as it was or as it is. -/
def Text.ShowsLines (diff : String) : Prop :=
  ∃ es : List DiffEntry, es ≠ [] ∧ (∀ e ∈ es, (e.mark = '-' ∨ e.mark = '+') ∧ e.Shows) ∧
    diff.toList = es.flatMap DiffEntry.text

theorem Text.not_showsLines_empty : ¬ ShowsLines "" := by
  rintro ⟨es, hne, hshows, htext⟩
  obtain ⟨e, rest, rfl⟩ := List.exists_cons_of_ne_nil hne
  have hnil := (List.append_eq_nil_iff.mp htext.symm).1
  exact (hshows e List.mem_cons_self).2.text_ne_nil hnil

/-- Lines that do not end in an empty one are those of another list, up to empty lines at the end of
that one. -/
theorem Text.sameUpToEmptyEnd_iff_of_getLast?_ne {lines others : List (List Char)}
    (hlast : others.getLast? ≠ some []) :
    SameUpToEmptyEnd lines others ↔ ∃ n, lines = others ++ List.replicate n [] := by
  constructor
  · rintro ⟨m, n, h⟩
    rcases Nat.le_total m n with hle | hle
    · obtain ⟨k, rfl⟩ := Nat.exists_eq_add_of_le' hle
      rw [List.replicate_add, ← List.append_assoc] at h
      exact ⟨k, List.append_cancel_right h⟩
    · obtain ⟨k, rfl⟩ := Nat.exists_eq_add_of_le' hle
      rw [List.replicate_add, ← List.append_assoc] at h
      have hothers := List.append_cancel_right h
      cases k with
      | zero => exact ⟨0, by simpa using hothers⟩
      | succ k =>
        rw [← hothers, List.replicate_succ', ← List.append_assoc, List.getLast?_concat] at hlast
        exact absurd rfl hlast
  · rintro ⟨n, h⟩
    exact ⟨0, n, by rw [h, List.replicate_zero, List.append_nil]⟩

theorem isFormatted?_eq_ok_iff {source : String} {formatted : Bool} :
    isFormatted? source = .ok formatted ↔
      ∃ text, format {} source = .ok text ∧ (source == text) = formatted := by
  rw [isFormatted?]
  cases format {} source <;> simp [Except.map]

/-- The last line of a formatted text is not empty. -/
theorem getLast?_contents_format {config : LayoutConfig} {source formatted : String}
    (h : format config source = .ok formatted) : (contents formatted.toList).getLast? ≠ some [] := by
  obtain ⟨-, rfl⟩ := format_eq_ok_iff.mp h
  have hprintable : ∀ line ∈ layoutLines config.separateGroups none
      (Document.ofSource source).program (Document.ofSource source).comments, line.Printable :=
    fun _ => Document.printable_of_arranges (arranges_layoutLines config.separateGroups none
      (Document.pairwise_program source) (Document.pairwise_comments source))
  rw [LayoutConfig.contents_format hprintable]
  exact (airy_layoutLines ..).getLast?_body_ne hprintable _

theorem showsLines_of_textEntries {old new : String} (h : textEntries old new ≠ []) :
    ShowsLines (String.ofList ((textEntries old new).flatMap DiffEntry.text)) := by
  refine ⟨textEntries old new, h, fun e he => ⟨?_, shows_of_mem_textEntries he⟩,
    String.toList_ofList⟩
  obtain ⟨i, -, ⟨-, rfl⟩ | ⟨-, rfl⟩⟩ := mem_shownEntries.mp he
  · exact .inl rfl
  · exact .inr rfl

theorem textEntries_eq_nil_iff {old new : String} : textEntries old new = [] ↔ SameLines old new := by
  rw [← textEntries_self new]
  exact shownEntries_eq_iff_old

/-- The diff of a source that is not formatted shows a line of it or of the formatted text, unless the
source holds the lines of the formatted text with other endings or with empty lines behind them; then
the diff is empty. -/
theorem formatDiff_of_unformatted {source : String} (hchanged : isFormatted? source = .ok false) :
    ∃ formatted diff, format {} source = .ok formatted ∧ formatDiff source = .ok (some diff) ∧
      (ShowsLines diff ↔
        ¬ ∃ n, contents source.toList = contents formatted.toList ++ List.replicate n []) ∧
      (¬ ShowsLines diff → diff = "") := by
  obtain ⟨formatted, hformat, hne⟩ := isFormatted?_eq_ok_iff.mp hchanged
  have hdiff : formatDiff source =
      .ok (some (String.ofList ((textEntries source formatted).flatMap DiffEntry.text))) := by
    rw [formatDiff, hformat, ← lineDiff_of_ne (beq_eq_false_iff_ne.mp hne)]
    rfl
  refine ⟨formatted, _, hformat, hdiff, ?_⟩
  rw [← sameUpToEmptyEnd_iff_of_getLast?_ne (getLast?_contents_format hformat),
    ← SameLines, ← textEntries_eq_nil_iff]
  by_cases hnil : textEntries source formatted = []
  · rw [hnil]
    exact ⟨iff_of_false not_showsLines_empty fun h => h rfl, fun _ => rfl⟩
  · have hshows := showsLines_of_textEntries hnil
    exact ⟨iff_of_true hshows hnil, fun h => absurd hshows h⟩

theorem formatDiff_of_unformatted_blanks :
    let source := "BIN  d \"d.bin\"\r\n\n\n"
    isFormatted? source = .ok false ∧
      ∃ diff, formatDiff source = .ok (some diff) ∧ ShowsLines diff := by
  intro source
  have hchanged : isFormatted? source = .ok false := by decide +kernel
  obtain ⟨formatted, diff, hformat, hdiff, hshows, -⟩ := formatDiff_of_unformatted hchanged
  refine ⟨hchanged, diff, hdiff, hshows.mpr ?_⟩
  have htext : format {} source = .ok "BIN d \"d.bin\"\n" := by decide +kernel
  cases hformat.symm.trans htext
  rintro ⟨n, hlines⟩
  have hfirst : (contents source.toList).head? =
      (contents "BIN d \"d.bin\"\n".toList).head? := by
    rw [hlines]
    rfl
  revert hfirst
  decide +kernel

/-- A source with returns at the ends of its lines is to be formatted, and its diff is empty. -/
theorem formatDiff_of_returns :
    (Document.ofSource "NEAR\r\n").problems = [] ∧ isFormatted? "NEAR\r\n" = .ok false ∧
      formatDiff "NEAR\r\n" = .ok (some "") ∧ ¬ ShowsLines "" :=
  ⟨by decide +kernel, by decide +kernel, by decide +kernel, not_showsLines_empty⟩

end ResourceDecl
