import ResourceDecl.Proofs.Diff.Entries
import ResourceDecl.Proofs.Documents.Lines

/-!
# A line diff and one of its texts determine the other

From one text and its diff to another text the lines of the other can be read off: a line is what a
`+` shows, empty where only a `-` stands, and else as in the first text. Empty lines at the end are
all that is lost, since a line that is missing counts as empty (`SameLines`).

* `sameUpToEmptyEnd_iff`: equal up to empty lines at the end, line by line.
* `shownEntries_eq_iff_new`, `shownEntries_eq_iff_old`: what equal entries say of the lines.
* `lineDiff_determines_lines`: the same of texts.
-/

namespace ResourceDecl.Text

/-- The lists are equal up to empty lines at their ends. -/
def SameUpToEmptyEnd (lines others : List (List Char)) : Prop :=
  ∃ m n, lines ++ List.replicate m [] = others ++ List.replicate n []

/-- The texts have the same lines, up to empty lines at their ends. -/
def SameLines (text other : String) : Prop :=
  SameUpToEmptyEnd (contents text.toList) (contents other.toList)

/-! ## Empty lines at the end -/

theorem lineAt_append_replicate (lines : List (List Char)) (m i : Nat) :
    lineAt (lines ++ List.replicate m []) i = lineAt lines i := by
  by_cases hi : i < lines.length
  · rw [lineAt, List.getElem?_append_left hi, lineAt]
  · have hle := Nat.not_lt.mp hi
    rw [lineAt, List.getElem?_append_right hle, lineAt_of_length_le hle, List.getElem?_replicate]
    split <;> rfl

theorem sameUpToEmptyEnd_iff {lines others : List (List Char)} :
    SameUpToEmptyEnd lines others ↔ ∀ i, lineAt lines i = lineAt others i := by
  constructor
  · rintro ⟨m, n, h⟩ i
    rw [← lineAt_append_replicate lines m, h, lineAt_append_replicate]
  · intro h
    -- both lists are made as long as the longer one
    refine ⟨others.length - lines.length, lines.length - others.length, ?_⟩
    have hlength : (lines ++ List.replicate (others.length - lines.length) []).length =
        (others ++ List.replicate (lines.length - others.length) []).length := by
      simp only [List.length_append, List.length_replicate]
      omega
    refine List.ext_getElem hlength fun i hleft hright => ?_
    have hline := h i
    rw [← lineAt_append_replicate lines (others.length - lines.length),
      ← lineAt_append_replicate others (lines.length - others.length), lineAt, lineAt,
      List.getElem?_eq_getElem hleft, List.getElem?_eq_getElem hright] at hline
    exact hline

/-! ## Equal entries -/

/-- What a diff shows of a line and another one at a known line: that the known line is another one,
unless it is empty, and that line itself, unless it is empty. -/
theorem line_eq_of_shown {known line other : List Char}
    (hknown : known ≠ line ∧ known ≠ [] ↔ known ≠ other ∧ known ≠ [])
    (hline : known ≠ line ∧ line ≠ [] → known ≠ other ∧ line = other)
    (hother : known ≠ other ∧ other ≠ [] → known ≠ line ∧ other = line) : line = other := by
  by_cases hsame : known = line
  · by_cases hsame' : known = other
    · rw [← hsame, hsame']
    · -- the other line would be shown, or the known one as what it is not
      by_cases hempty : other = []
      · have hne : known ≠ [] := fun h => hsame' (h.trans hempty.symm)
        exact absurd hsame (hknown.mpr ⟨hsame', hne⟩).1
      · exact absurd hsame (hother ⟨hsame', hempty⟩).1
  · by_cases hempty : line = []
    · by_cases hempty' : other = []
      · rw [hempty, hempty']
      · have hsame' : known = other := by
          by_contra hdiffers
          exact hempty' ((hother ⟨hdiffers, hempty'⟩).2.trans hempty)
        have hne : known ≠ [] := fun h => hempty' (hsame'.symm.trans h)
        exact absurd hsame' (hknown.mp ⟨hsame, hne⟩).1
    · exact (hline ⟨hsame, hempty⟩).2

section

variable {old new : List (List Char)} {i : Nat} {line : List Char}

theorem mem_removed :
    ⟨'-', i + 1, line⟩ ∈ shownEntries old new ↔
      (lineAt old i ≠ lineAt new i ∧ lineAt old i ≠ []) ∧ line = lineAt old i := by
  rw [mem_shownEntries]
  constructor
  · rintro ⟨j, hdiffers, ⟨hne, he⟩ | ⟨-, he⟩⟩
    · obtain ⟨-, hj, hline⟩ := DiffEntry.mk.inj he
      cases hj
      exact ⟨⟨hdiffers, hne⟩, hline⟩
    · cases (DiffEntry.mk.inj he).1
  · rintro ⟨⟨hdiffers, hne⟩, rfl⟩
    exact ⟨i, hdiffers, .inl ⟨hne, rfl⟩⟩

theorem mem_added :
    ⟨'+', i + 1, line⟩ ∈ shownEntries old new ↔
      (lineAt old i ≠ lineAt new i ∧ lineAt new i ≠ []) ∧ line = lineAt new i := by
  rw [mem_shownEntries]
  constructor
  · rintro ⟨j, hdiffers, ⟨-, he⟩ | ⟨hne, he⟩⟩
    · cases (DiffEntry.mk.inj he).1
    · obtain ⟨-, hj, hline⟩ := DiffEntry.mk.inj he
      cases hj
      exact ⟨⟨hdiffers, hne⟩, hline⟩
  · rintro ⟨⟨hdiffers, hne⟩, rfl⟩
    exact ⟨i, hdiffers, .inr ⟨hne, rfl⟩⟩

end

theorem shownEntries_congr {old old' new new' : List (List Char)}
    (hold : SameUpToEmptyEnd old old') (hnew : SameUpToEmptyEnd new new') :
    shownEntries old new = shownEntries old' new' := by
  rw [sameUpToEmptyEnd_iff] at hold hnew
  let n := max (max old.length old'.length) (max new.length new'.length)
  have hleft : shownEntries old new = _ := shownEntries_eq (n := n) (by omega) (by omega)
  have hright : shownEntries old' new' = _ := shownEntries_eq (n := n) (by omega) (by omega)
  simp only [hleft, hright, hold, hnew]

theorem shownEntries_eq_iff_new {old new other : List (List Char)} :
    shownEntries old new = shownEntries old other ↔ SameUpToEmptyEnd new other := by
  refine ⟨fun h => sameUpToEmptyEnd_iff.mpr fun i => ?_, shownEntries_congr ⟨0, 0, rfl⟩⟩
  have hremoved := @mem_removed old new i (lineAt old i)
  rw [h, mem_removed, and_iff_left rfl, and_iff_left rfl] at hremoved
  refine line_eq_of_shown hremoved.symm (fun hline => ?_) fun hother => ?_
  · have hadded := (@mem_added old new i _).mpr ⟨hline, rfl⟩
    rw [h, mem_added] at hadded
    exact ⟨hadded.1.1, hadded.2⟩
  · have hadded := (@mem_added old other i _).mpr ⟨hother, rfl⟩
    rw [← h, mem_added] at hadded
    exact ⟨hadded.1.1, hadded.2⟩

theorem shownEntries_eq_iff_old {old other new : List (List Char)} :
    shownEntries old new = shownEntries other new ↔ SameUpToEmptyEnd old other := by
  refine ⟨fun h => sameUpToEmptyEnd_iff.mpr fun i => ?_, fun h => shownEntries_congr h ⟨0, 0, rfl⟩⟩
  have hadded := @mem_added old new i (lineAt new i)
  rw [h, mem_added, and_iff_left rfl, and_iff_left rfl, ne_comm, @ne_comm _ (lineAt old i)] at hadded
  refine line_eq_of_shown hadded.symm (fun hline => ?_) fun hother => ?_
  · have hremoved := (@mem_removed old new i _).mpr ⟨⟨hline.1.symm, hline.2⟩, rfl⟩
    rw [h, mem_removed] at hremoved
    exact ⟨hremoved.1.1.symm, hremoved.2⟩
  · have hremoved := (@mem_removed other new i _).mpr ⟨⟨hother.1.symm, hother.2⟩, rfl⟩
    rw [← h, mem_removed] at hremoved
    exact ⟨hremoved.1.1.symm, hremoved.2⟩

/-! ## Texts -/

theorem not_mem_of_mem_contents {text line : List Char} (h : line ∈ contents text) :
    '\n' ∉ line := by
  obtain ⟨front, last, hcut⟩ := (pieces text).eq_nil_or_concat.resolve_left (pieces_ne_nil text)
  have hplain : ∀ piece ∈ front ++ [last], '\n' ∉ piece := by
    intro piece hpiece
    rw [← List.concat_eq_append, ← hcut] at hpiece
    exact not_mem_of_mem_pieces hpiece
  have hlines : contents text = front.map dropReturn ++ if last.isEmpty then [] else [last] := by
    simp only [contents, hcut, List.concat_eq_append, List.dropLast_concat, List.getLastD_concat]
  rw [hlines, List.mem_append] at h
  rcases h with h | h
  · obtain ⟨piece, hpiece, rfl⟩ := List.mem_map.mp h
    have hnot := hplain piece (List.mem_append_left _ hpiece)
    rw [dropReturn]
    split
    · exact fun hmem => hnot (List.dropLast_subset _ hmem)
    · exact hnot
  · split at h
    · cases h
    · rw [List.mem_singleton.mp h]
      exact hplain last List.mem_concat_self

theorem lineAt_mem {lines : List (List Char)} {i : Nat} (h : lineAt lines i ≠ []) :
    lineAt lines i ∈ lines := by
  rw [lineAt] at h ⊢
  cases hi : lines[i]? with
  | none =>
    rw [hi] at h
    exact absurd rfl h
  | some line => exact List.mem_of_getElem? hi

/-- The entries of a diff between two texts. -/
def textEntries (old new : String) : List DiffEntry :=
  shownEntries (contents old.toList) (contents new.toList)

theorem shows_of_mem_textEntries {old new : String} {e : DiffEntry}
    (h : e ∈ textEntries old new) : e.Shows := by
  obtain ⟨i, -, ⟨hne, rfl⟩ | ⟨hne, rfl⟩⟩ := mem_shownEntries.mp h
  · exact ⟨hne, not_mem_of_mem_contents (lineAt_mem hne)⟩
  · exact ⟨hne, not_mem_of_mem_contents (lineAt_mem hne)⟩

theorem textEntries_self (text : String) : textEntries text text = [] := by
  refine List.eq_nil_iff_forall_not_mem.mpr fun e he => ?_
  obtain ⟨i, hdiffers, -⟩ := mem_shownEntries.mp he
  exact hdiffers rfl

theorem lineDiff_of_ne {old new : String} (h : old ≠ new) :
    lineDiff old new = some (String.ofList ((textEntries old new).flatMap DiffEntry.text)) := by
  rw [lineDiff, if_neg h, textEntries, ← toList_join_diffLines, String.ofList_toList]

/-- Two diffs are the same if both are absent, or neither is and their entries are the same. -/
theorem lineDiff_eq_iff {old new old' new' : String} :
    lineDiff old new = lineDiff old' new' ↔
      (old = new ↔ old' = new') ∧ textEntries old new = textEntries old' new' := by
  by_cases h : old = new
  · subst h
    rw [lineDiff_eq_none_iff.mpr rfl, textEntries_self, eq_comm, lineDiff_eq_none_iff,
      iff_true_left rfl, iff_self_and]
    rintro rfl
    exact (textEntries_self old').symm
  · by_cases h' : old' = new'
    · rw [lineDiff_eq_none_iff.mpr h', lineDiff_eq_none_iff]
      exact iff_of_false h fun hboth => h (hboth.1.mpr h')
    · rw [lineDiff_of_ne h, lineDiff_of_ne h', Option.some_inj, String.ofList_inj,
        and_iff_right (iff_of_false h h')]
      refine ⟨fun htext => ?_, fun hentries => by rw [hentries]⟩
      exact eq_of_flatMap_text (fun _ => shows_of_mem_textEntries)
        (fun _ => shows_of_mem_textEntries) htext

/-- A diff and one of its texts determine the lines of the other, up to empty lines at the end. There
is no diff exactly if the texts are equal. -/
theorem lineDiff_determines_lines (a b : String) :
    (lineDiff a b = none ↔ a = b) ∧
      (∀ b', lineDiff a b = lineDiff a b' ↔ (a = b ↔ a = b') ∧ SameLines b b') ∧
      ∀ a', lineDiff a b = lineDiff a' b ↔ (a = b ↔ a' = b) ∧ SameLines a a' := by
  refine ⟨lineDiff_eq_none_iff, fun b' => ?_, fun a' => ?_⟩
  · rw [lineDiff_eq_iff]
    exact and_congr_right' shownEntries_eq_iff_new
  · rw [lineDiff_eq_iff]
    exact and_congr_right' shownEntries_eq_iff_old

/-- Empty lines at the end are lost. -/
example : lineDiff "a" "b" = lineDiff "a" "b\n\n" := by decide +kernel

end ResourceDecl.Text
