import ResourceDecl.Proofs.Layout.Preservation

/-!
# Where comments stand

A layout holds the declarations and the comments of any lists, whatever their lines are, each once
and in order (`filterMap_statement?_layoutLines`, `filterMap_comment?_layoutLines`). If both lists
ascend, a comment on the line of a declaration trails it, and any other comment stands alone above
the next declaration (`StandsAlone`), with no blank line between the two.

`LayoutConfig.format_places_comments` says this of formatted text; without comments and choices the
text is that of the printer.
-/

namespace ResourceDecl

open Text

/-! ## What the lines hold -/

/-- The gap in front of a declaration is at most one blank line. -/
theorem gap_eq_or (separate : Bool) (previous : Option Category) (s : Statement) :
    (if separate then groupBreak previous s else []) = [] ∨
      (if separate then groupBreak previous s else []) = [.blank] := by
  unfold groupBreak
  split
  · split
    · split
      · exact .inl rfl
      · exact .inr rfl
    · exact .inl rfl
  · exact .inl rfl

theorem filterMap_statement?_gap (separate : Bool) (previous : Option Category) (s : Statement) :
    (if separate then groupBreak previous s else []).filterMap LayoutLine.statement? = [] := by
  rcases gap_eq_or separate previous s with hgap | hgap <;> rw [hgap] <;> rfl

theorem filterMap_comment?_gap (separate : Bool) (previous : Option Category) (s : Statement) :
    (if separate then groupBreak previous s else []).filterMap LayoutLine.comment? = [] := by
  rcases gap_eq_or separate previous s with hgap | hgap <;> rw [hgap] <;> rfl

@[simp] theorem filterMap_statement?_map_comment (comments : List Comment) :
    (comments.map LayoutLine.comment).filterMap LayoutLine.statement? = [] := by
  simp [List.filterMap_map, Function.comp_def, LayoutLine.statement?]

@[simp] theorem filterMap_comment?_map_comment (comments : List Comment) :
    (comments.map LayoutLine.comment).filterMap LayoutLine.comment? = comments := by
  simp [List.filterMap_map, Function.comp_def, LayoutLine.comment?]

variable (separate : Bool) (previous : Option Category) {program : Program}
  {comments : List Comment}

theorem filterMap_statement?_layoutLines (program : Program) (comments : List Comment) :
    (layoutLines separate previous program comments).filterMap LayoutLine.statement? = program := by
  induction program generalizing previous comments with
  | nil => exact filterMap_statement?_map_comment comments
  | cons s program ih =>
    rw [layoutLines_cons, List.filterMap_append, List.filterMap_append,
      filterMap_statement?_gap, filterMap_statement?_map_comment]
    exact congrArg (s :: ·) (ih _ _)

theorem filterMap_comment?_layoutLines (program : Program) (comments : List Comment) :
    (layoutLines separate previous program comments).filterMap LayoutLine.comment? = comments := by
  induction program generalizing previous comments with
  | nil => exact filterMap_comment?_map_comment comments
  | cons s program ih =>
    have hline (trailing : Option Comment) (lines : List LayoutLine) :
        (LayoutLine.statement s trailing :: lines).filterMap LayoutLine.comment? =
          trailing.toList ++ lines.filterMap LayoutLine.comment? := by
      cases trailing <;> rfl
    rw [layoutLines_cons, List.filterMap_append, List.filterMap_append,
      filterMap_comment?_gap, filterMap_comment?_map_comment, hline, ih]
    exact slots_append s comments

/-! ## Places in ascending lists -/

/-- The comment has a line of its own, below the declarations with smaller lines and above those
with larger ones; what stands between it and the next declaration is comments. -/
def StandsAlone (c : Comment) (lines : List LayoutLine) : Prop :=
  ∃ (above : List LayoutLine) (more : List Comment) (below : List LayoutLine),
    lines = above ++ .comment c :: (more.map .comment ++ below) ∧
    (∀ s ∈ above.filterMap LayoutLine.statement?, s.line < c.line) ∧
    (∀ s ∈ below.filterMap LayoutLine.statement?, c.line < s.line) ∧
    (below = [] ∨ ∃ s trailing rest, below = .statement s trailing :: rest)

theorem StandsAlone.append_front {c : Comment} {lines : List LayoutLine} (h : StandsAlone c lines)
    {front : List LayoutLine}
    (hfront : ∀ s ∈ front.filterMap LayoutLine.statement?, s.line < c.line) :
    StandsAlone c (front ++ lines) := by
  obtain ⟨above, more, below, rfl, habove, hbelow, hnext⟩ := h
  refine ⟨front ++ above, more, below, (List.append_assoc ..).symm, ?_, hbelow, hnext⟩
  rw [List.filterMap_append]
  exact List.forall_mem_append.mpr ⟨hfront, habove⟩

/-- Among comments that a declaration or nothing follows, each stands alone. -/
theorem standsAlone_of_mem {c : Comment} (hc : c ∈ comments) {below : List LayoutLine}
    (hbelow : ∀ s ∈ below.filterMap LayoutLine.statement?, c.line < s.line)
    (hnext : below = [] ∨ ∃ s trailing rest, below = .statement s trailing :: rest) :
    StandsAlone c (comments.map .comment ++ below) := by
  obtain ⟨before, after, rfl⟩ := List.append_of_mem hc
  refine ⟨before.map .comment, after, below, by simp, ?_, hbelow, hnext⟩
  rw [filterMap_statement?_map_comment]
  simp

theorem standsAlone_layoutLines (hprogram : program.Pairwise fun s t => s.line < t.line)
    (hcomments : comments.Pairwise fun c d => c.line < d.line) {c : Comment} (hc : c ∈ comments)
    (hline : ∀ s ∈ program, c.line ≠ s.line) :
    StandsAlone c (layoutLines separate previous program comments) := by
  induction program generalizing previous comments with
  | nil =>
    rw [layoutLines, ← List.append_nil (comments.map _)]
    exact standsAlone_of_mem hc (by simp) (.inl rfl)
  | cons s program ih =>
    obtain ⟨hs, hrest⟩ := List.pairwise_cons.mp hprogram
    obtain ⟨hfirst, hothers⟩ := List.forall_mem_cons.mp hline
    obtain ⟨hsplit, habove, htrailing, hlater⟩ := slots_spec s hcomments
    rw [layoutLines_cons]
    apply StandsAlone.append_front ?_ (by simp [filterMap_statement?_gap])
    rw [← hsplit, List.mem_append, List.mem_append] at hc
    rcases hc with hc | hc | hc
    · refine standsAlone_of_mem hc ?_ (.inr ⟨_, _, _, rfl⟩)
      intro t ht
      have hmem : t ∈ s :: program := by
        simpa [LayoutLine.statement?, filterMap_statement?_layoutLines] using ht
      rcases List.mem_cons.mp hmem with rfl | ht
      · exact habove c hc
      · exact (habove c hc).trans (hs t ht)
    · exact absurd (htrailing c (Option.mem_toList.mp hc)) hfirst
    · have hsorted := hcomments
      rw [← hsplit] at hsorted
      have hcontinued := ih (some s.keyword.category) hrest (hsorted.sublist
        ((List.sublist_append_right _ _).trans (List.sublist_append_right _ _))) hc hothers
      have habove : ∀ t ∈ [LayoutLine.statement s (slots s comments).trailing].filterMap
          LayoutLine.statement?, t.line < c.line := by
        simpa [LayoutLine.statement?] using hlater c hc
      apply (hcontinued.append_front habove).append_front
      rw [filterMap_statement?_map_comment]
      simp

theorem statement_mem_layoutLines (hprogram : program.Pairwise fun s t => s.line < t.line)
    (hcomments : comments.Pairwise fun c d => c.line < d.line) {c : Comment} (hc : c ∈ comments)
    {s : Statement} (hs : s ∈ program) (hline : c.line = s.line) :
    .statement s (some c) ∈ layoutLines separate previous program comments := by
  have harranges := arranges_layoutLines separate previous hprogram hcomments
  rw [← harranges.filterMap_comment?] at hc
  rw [← harranges.filterMap_statement?] at hs
  obtain ⟨line, hm, hcomment⟩ := List.mem_filterMap.mp hc
  obtain ⟨other, hother, hstatement⟩ := List.mem_filterMap.mp hs
  have hsource := harranges.source?_eq_of_comment? hm hcomment
  rw [hline] at hsource
  obtain rfl := harranges.eq_of_source? hm hother hsource
    (Arranges.source?_eq_of_statement? hstatement)
  cases line with
  | blank => cases hstatement
  | comment => cases hstatement
  | statement =>
    cases hstatement
    cases hcomment
    exact hm

/-! ## Formatted text -/

theorem layoutLines_of_no_comments (program : Program) :
    layoutLines false previous program [] = program.map fun s => .statement s none := by
  induction program generalizing previous with
  | nil => rfl
  | cons s program ih =>
    rw [layoutLines_cons, List.map_cons, ← ih (some s.keyword.category)]
    rfl

namespace LayoutConfig

/-- Without comments, alignment and blank lines the layout is the printed program. -/
theorem format_eq_print {config : LayoutConfig} (halign : config.alignKeywords = false)
    (hseparate : config.separateGroups = false) (hfinal : config.finalNewline = true)
    (program : Program) :
    config.format program [] = program.print { fieldSeparator := config.fieldSeparator } := by
  rw [format, if_pos hfinal, lines, printOptions, halign, hseparate, layoutLines_of_no_comments,
    List.map_map]
  rfl

/-- The lines of a layout are nothing, or a text with a line feed behind it. -/
theorem lines_eq_or (config : LayoutConfig) (program : Program) (comments : List Comment) :
    config.lines program comments = "" ∨ ∃ text, config.lines program comments = text ++ "\n" := by
  have hlines := config.toList_lines program comments
  rcases List.eq_nil_or_concat'
    (layoutLines config.separateGroups none program comments) with hnil | ⟨front, last, hlast⟩
  · rw [hnil] at hlines
    exact .inl (String.toList_eq_nil_iff.mp hlines)
  · refine .inr ⟨String.ofList ((front.flatMap fun line =>
      (line.text (config.printOptions program)).toList) ++
        last.body (config.printOptions program)), ?_⟩
    rw [← String.toList_inj, hlines, hlast]
    simp [LayoutLine.toList_text]

/-- Without its final line feed a layout loses nothing else. -/
theorem format_eq_or {config : LayoutConfig} (hfinal : config.finalNewline = false)
    (program : Program) (comments : List Comment) :
    config.lines program comments = "" ∧ config.format program comments = "" ∨
      config.lines program comments = config.format program comments ++ "\n" := by
  rw [format, hfinal]
  rcases config.lines_eq_or program comments with hnil | ⟨text, htext⟩
  · simp [hnil]
  · simp [htext]

/-- A layout is written line by line: a line feed alone, a comment, or a printed declaration with
at most one comment behind one blank. The lines hold the declarations and the comments, each once
and in order, whatever lines they come from. If both ascend, a comment trails the declaration of its
line, or else stands alone between the declarations around it. The formatted text is that of the
lines but for the final line feed, and that of the printer if there is nothing to arrange. -/
theorem format_places_comments (config : LayoutConfig) (program : Program)
    (comments : List Comment) :
    let printed := fun s : Statement => s.print (config.printOptions program)
    let written : LayoutLine → String
      | .blank => "\n"
      | .comment c => c.text ++ "\n"
      | .statement s none => printed s ++ "\n"
      | .statement s (some c) => printed s ++ " " ++ c.text ++ "\n"
    (∃ lines : List LayoutLine,
      config.lines program comments = String.join (lines.map written) ∧
        lines.filterMap LayoutLine.statement? = program ∧
        lines.filterMap LayoutLine.comment? = comments ∧
        ((program.Pairwise fun s t => s.line < t.line) →
          (comments.Pairwise fun c d => c.line < d.line) → ∀ c ∈ comments,
            (∀ s ∈ program, c.line = s.line → .statement s (some c) ∈ lines) ∧
              ((∀ s ∈ program, c.line ≠ s.line) → StandsAlone c lines))) ∧
      (config.finalNewline = true →
        config.format program comments = config.lines program comments) ∧
      (config.finalNewline = false →
        config.lines program comments = "" ∧ config.format program comments = "" ∨
          config.lines program comments = config.format program comments ++ "\n") ∧
      (comments = [] → config.alignKeywords = false → config.separateGroups = false →
        config.finalNewline = true →
          config.format program comments =
            program.print { fieldSeparator := config.fieldSeparator }) := by
  intro printed written
  have hwritten : LayoutLine.text (config.printOptions program) = written := by
    funext line
    rcases line with _ | _ | ⟨_, _ | _⟩ <;> rfl
  refine ⟨⟨layoutLines config.separateGroups none program comments, ?_,
    filterMap_statement?_layoutLines .., filterMap_comment?_layoutLines .., ?_⟩, ?_,
    fun hfinal => format_eq_or hfinal program comments, ?_⟩
  · rw [← hwritten]
    rfl
  · intro hprogram hcomments c hc
    constructor
    · intro s hs hline
      exact statement_mem_layoutLines _ _ hprogram hcomments hc hs hline
    · exact standsAlone_layoutLines _ _ hprogram hcomments hc
  · intro hfinal
    rw [format, if_pos hfinal]
  · rintro rfl halign hseparate hfinal
    exact format_eq_print halign hseparate hfinal program

/-- Comments above, on and below the lines of two declarations of different groups. -/
theorem format_places_comments_around :
    let near : Statement := ⟨.near, none, [], 2, ⟨0, 4⟩⟩
    let logo : Statement := ⟨.bitmap, none, [⟨.name, .ident "logo", ⟨16, 20⟩⟩], 5, ⟨9, 20⟩⟩
    let comment (text : String) (line : Nat) : Comment := ⟨text, ⟨0, 0⟩, line, false⟩
    let program : Program := [near, logo]
    let comments := [comment "#a" 1, comment "#b" 2, comment "#c" 3, comment "#d" 9]
    let config : LayoutConfig := {}
    (program.Pairwise fun s t => s.line < t.line) ∧
      (comments.Pairwise fun c d => c.line < d.line) ∧
      (∃ lines : List LayoutLine,
        lines.filterMap LayoutLine.statement? = program ∧
          lines.filterMap LayoutLine.comment? = comments ∧
          .statement near (some (comment "#b" 2)) ∈ lines ∧
          StandsAlone (comment "#c" 3) lines) ∧
      config.format program comments = "#a\nNEAR #b\n\n#c\nBITMAP logo\n#d\n" ∧
      { config with finalNewline := false }.format program comments =
        "#a\nNEAR #b\n\n#c\nBITMAP logo\n#d" ∧
      { config with separateGroups := false }.format program [] = "NEAR\nBITMAP logo\n" := by
  intro near logo comment program comments config
  have hprogram : program.Pairwise fun s t => s.line < t.line := by decide
  have hcomments : comments.Pairwise fun c d => c.line < d.line := by decide
  have hlines : config.lines program comments = "#a\nNEAR #b\n\n#c\nBITMAP logo\n#d\n" := by
    decide +kernel
  obtain ⟨⟨lines, -, hstatements, htexts, hplaces⟩, hformat, -⟩ :=
    format_places_comments config program comments
  have hcut := (format_places_comments { config with finalNewline := false } program
    comments).2.2.1 rfl
  have hplain := (format_places_comments { config with separateGroups := false } program
    []).2.2.2 rfl rfl rfl rfl
  refine ⟨hprogram, hcomments, ⟨lines, hstatements, htexts, ?_, ?_⟩, (hformat rfl).trans hlines,
    ?_, hplain.trans (by decide +kernel)⟩
  · exact (hplaces hprogram hcomments _ (by simp [comments])).1 near (by simp [program]) rfl
  · exact (hplaces hprogram hcomments _ (by simp [comments])).2 (by decide)
  · -- the text without its last line feed is what stands in front of it
    have hcut := hcut.resolve_left fun hempty => absurd hempty.1 (by decide +kernel)
    have hsame : { config with finalNewline := false }.lines program comments =
        "#a\nNEAR #b\n\n#c\nBITMAP logo\n#d" ++ "\n" := hlines
    rw [hsame] at hcut
    exact ((String.append_left_inj "\n").mp hcut).symm

end LayoutConfig

end ResourceDecl
