import ResourceDecl.Proofs.Documents.Reprint
import ResourceDecl.Proofs.Layout.Preservation

/-!
# Layouts as normal forms

The text of a layout depends on the declarations, the comments and their arrangement only
(`LayoutConfig.format_congr`). Since formatting keeps all of it, a source is formatted alike under
a configuration whatever it was formatted with before (`format_format`).
-/

namespace ResourceDecl

open Text

theorem takeWhile_dropWhile_congr {α : Type} {p q : α → Bool} {l : List α}
    (h : ∀ a ∈ l, p a = q a) : l.takeWhile p = l.takeWhile q ∧ l.dropWhile p = l.dropWhile q := by
  induction l with
  | nil => exact ⟨rfl, rfl⟩
  | cons a l ih =>
    obtain ⟨ha, hl⟩ := List.forall_mem_cons.mp h
    obtain ⟨htake, hdrop⟩ := ih hl
    rw [List.takeWhile_cons, List.takeWhile_cons, List.dropWhile_cons, List.dropWhile_cons, ha,
      htake, hdrop]
    exact ⟨rfl, rfl⟩

/-! ## What the layout depends on -/

theorem groupBreak_congr {s t : Statement} (h : s.SameShape t) (previous : Option Category) :
    groupBreak previous s = groupBreak previous t := by
  unfold groupBreak
  rw [h.1]

theorem keywordWidth_congr {p q : Program} (h : List.Forall₂ Statement.SameShape p q) :
    keywordWidth p = keywordWidth q := by
  have hlengths : ((p.filter fun s => !s.fields.isEmpty).map fun s => s.keyword.spelling.length) =
      (q.filter fun s => !s.fields.isEmpty).map fun s => s.keyword.spelling.length := by
    induction h with
    | nil => rfl
    | @cons s t _ _ hs _ ih =>
      rw [List.filter_cons, List.filter_cons, hs.isEmpty_fields]
      split
      · rw [List.map_cons, List.map_cons, ih, hs.1]
      · exact ih
  rw [keywordWidth, hlengths, keywordWidth]

theorem text_statement_congr {s t : Statement} (hs : s.SameShape t) {b c : Option Comment}
    (hc : b.map Comment.text = c.map Comment.text) (options : PrintOptions) :
    (LayoutLine.statement s b).text options = (LayoutLine.statement t c).text options := by
  have hprint := Statement.print_congr hs options
  cases b with
  | none =>
    have hnone : c = none := Option.map_eq_none_iff.mp hc.symm
    rw [hnone, LayoutLine.text, LayoutLine.text, hprint]
  | some b =>
    obtain ⟨c, rfl, htext⟩ := Option.map_eq_some_iff.mp hc.symm
    rw [LayoutLine.text, LayoutLine.text, hprint, htext]

/-- Declarations that stand alike among two lists of comments part them alike. -/
theorem slots_pairs {s t : Statement} {comments : List (Comment × Comment)}
    (hplaces : ∀ c ∈ comments,
      (c.1.line < s.line ↔ c.2.line < t.line) ∧ (c.1.line = s.line ↔ c.2.line = t.line)) :
    ∃ (above : List (Comment × Comment)) (trailing : Option (Comment × Comment))
      (later : List (Comment × Comment)),
      above ⊆ comments ∧ (∀ c ∈ trailing, c ∈ comments) ∧ later ⊆ comments ∧
      slots s (comments.map Prod.fst) =
        ⟨above.map Prod.fst, trailing.map Prod.fst, later.map Prod.fst⟩ ∧
      slots t (comments.map Prod.snd) =
        ⟨above.map Prod.snd, trailing.map Prod.snd, later.map Prod.snd⟩ := by
  have hbefore : ∀ c ∈ comments, decide (c.1.line < s.line) = decide (c.2.line < t.line) := by
    intro c hc
    exact decide_eq_decide.mpr (hplaces c hc).1
  obtain ⟨htake, hdrop⟩ := takeWhile_dropWhile_congr hbefore
  have habove := List.takeWhile_subset (fun c => decide (c.2.line < t.line)) (l := comments)
  have hpending := List.dropWhile_subset (l := comments) fun c => decide (c.2.line < t.line)
  simp only [slots, List.takeWhile_map, List.dropWhile_map, Function.comp_def]
  rw [htake, hdrop]
  cases hcase : comments.dropWhile fun c => decide (c.2.line < t.line) with
  | nil => exact ⟨_, none, [], habove, by simp, List.nil_subset comments, rfl, rfl⟩
  | cons c later =>
    rw [hcase] at hpending
    have hc := hpending List.mem_cons_self
    simp only [List.map_cons]
    by_cases hline : c.1.line = s.line
    · rw [if_pos hline, if_pos ((hplaces c hc).2.mp hline)]
      exact ⟨_, some c, later, habove, by simpa using hc, List.subset_of_cons_subset hpending,
        rfl, rfl⟩
    · rw [if_neg hline, if_neg (mt (hplaces c hc).2.mpr hline)]
      exact ⟨_, none, c :: later, habove, by simp, hpending, rfl, rfl⟩

theorem map_text_comments_congr {comments : List (Comment × Comment)}
    (h : ∀ c ∈ comments, c.1.text = c.2.text) (options : PrintOptions) :
    ((comments.map Prod.fst).map LayoutLine.comment).map (LayoutLine.text options) =
      ((comments.map Prod.snd).map LayoutLine.comment).map (LayoutLine.text options) := by
  simp only [List.map_map]
  apply List.map_congr_left
  intro c hc
  simp [LayoutLine.text, h c hc]

/-- Two programs and their comments, given in pairs, have layouts of the same text if the pairs are
alike and the comments of both have the same places. -/
theorem map_text_layoutLines_congr (separate : Bool) (previous : Option Category)
    (options : PrintOptions) {program : List (Statement × Statement)}
    {comments : List (Comment × Comment)} (hprogram : ∀ s ∈ program, s.1.SameShape s.2)
    (hcomments : ∀ c ∈ comments, c.1.text = c.2.text)
    (hplaces : ∀ s ∈ program, ∀ c ∈ comments,
      (c.1.line < s.1.line ↔ c.2.line < s.2.line) ∧ (c.1.line = s.1.line ↔ c.2.line = s.2.line)) :
    (layoutLines separate previous (program.map Prod.fst) (comments.map Prod.fst)).map
        (LayoutLine.text options) =
      (layoutLines separate previous (program.map Prod.snd) (comments.map Prod.snd)).map
        (LayoutLine.text options) := by
  induction program generalizing previous comments with
  | nil => exact map_text_comments_congr hcomments options
  | cons s program ih =>
    obtain ⟨s, t⟩ := s
    obtain ⟨hs, hrest⟩ := List.forall_mem_cons.mp hprogram
    obtain ⟨hplace, hothers⟩ := List.forall_mem_cons.mp hplaces
    obtain ⟨above, trailing, later, habove, htrailing, hlater, hfst, hsnd⟩ := slots_pairs hplace
    have hcontinued := ih (some t.keyword.category) hrest (fun c hc => hcomments c (hlater hc))
      fun r hr c hc => hothers r hr c (hlater hc)
    have hremarks := map_text_comments_congr (fun c hc => hcomments c (habove hc)) options
    have hremark : (trailing.map Prod.fst).map Comment.text =
        (trailing.map Prod.snd).map Comment.text := by
      rw [Option.map_map, Option.map_map]
      apply Option.map_congr
      intro c hc
      exact hcomments c (htrailing c hc)
    have hline := text_statement_congr hs hremark options
    rw [List.map_cons, List.map_cons, layoutLines_cons, layoutLines_cons, hfst, hsnd,
      groupBreak_congr hs, hs.1]
    simp only [List.map_append, List.map_cons]
    rw [hremarks, hline, hcontinued]

/-- The same layout is laid out alike. -/
theorem LayoutConfig.format_congr (config : LayoutConfig) {d e : Document} (h : d.SameLayout e) :
    config.format d.program d.comments = config.format e.program e.comments := by
  obtain ⟨hprogram, hcomments, hplaces⟩ := h
  have hoptions : config.printOptions d.program = config.printOptions e.program := by
    rw [printOptions, printOptions, keywordWidth_congr hprogram]
  have hlines := map_text_layoutLines_congr config.separateGroups none
    (config.printOptions e.program) (fun _ hs => List.forall₂_zip hprogram hs)
    (fun _ hc => (List.forall₂_zip hcomments hc).1) hplaces
  rw [List.map_fst_zip hprogram.length_eq.le, List.map_fst_zip hcomments.length_eq.le,
    List.map_snd_zip hprogram.length_eq.ge, List.map_snd_zip hcomments.length_eq.ge] at hlines
  rw [format, format, lines, lines, hoptions, hlines]

/-! ## Formatting twice -/

theorem format_of_sameLayout {source formatted : String}
    (hproblems : (Document.ofSource source).problems = [])
    (hclean : (Document.ofSource formatted).problems = [])
    (hlayout : (Document.ofSource source).SameLayout (Document.ofSource formatted))
    (config : LayoutConfig) : format config formatted = format config source := by
  have hcongr := config.format_congr hlayout
  rw [format_eq_ok_iff.mpr ⟨hproblems, hcongr⟩]
  exact format_eq_ok_iff.mpr ⟨hclean, rfl⟩

/-- A source without problems is formatted alike whatever it was formatted with before, and what
the default configuration gives is formatted, without a diff. -/
theorem format_format (source : String) :
    ((Document.ofSource source).problems = [] → ∀ before config : LayoutConfig,
      ∃ first second, format before source = .ok first ∧ format config source = .ok second ∧
        format config first = .ok second) ∧
      ∀ formatted, format {} source = .ok formatted →
        isFormatted? formatted = .ok true ∧ formatDiff formatted = .ok none := by
  constructor
  · intro hproblems before config
    obtain ⟨hclean, hlayout⟩ := Document.ofSource_format before hproblems
    have hsecond : format config source = .ok _ := format_eq_ok_iff.mpr ⟨hproblems, rfl⟩
    refine ⟨_, _, format_eq_ok_iff.mpr ⟨hproblems, rfl⟩, hsecond, ?_⟩
    rw [format_of_sameLayout hproblems hclean hlayout, hsecond]
  · intro formatted hformatted
    obtain ⟨hproblems, rfl⟩ := format_eq_ok_iff.mp hformatted
    obtain ⟨hclean, hlayout⟩ := Document.ofSource_format {} hproblems
    have hagain := (format_of_sameLayout hproblems hclean hlayout {}).trans hformatted
    rw [isFormatted?, formatDiff, hagain]
    constructor
    · simp [Except.map]
    · exact congrArg Except.ok (lineDiff_eq_none_iff.mpr rfl)

theorem format_format_sound :
    let source := "WAV  x \"y.wav\" PCM# s"
    (∃ first second, format { alignKeywords := true, finalNewline := false } source = .ok first ∧
        format { fieldSeparator := 3 } source = .ok second ∧
        format { fieldSeparator := 3 } first = .ok second) ∧
      isFormatted? "WAV x \"y.wav\" PCM # s\n" = .ok true ∧
      formatDiff "WAV x \"y.wav\" PCM # s\n" = .ok none := by
  intro source
  have hformatted : format {} source = .ok "WAV x \"y.wav\" PCM # s\n" := by
    decide +kernel
  have hproblems := (format_eq_ok_iff.mp hformatted).1
  obtain ⟨hanew, hdefault⟩ := format_format source
  exact ⟨hanew hproblems _ _, hdefault _ hformatted⟩

end ResourceDecl
