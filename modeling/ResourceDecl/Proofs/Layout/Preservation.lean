import ResourceDecl.Proofs.Layout.Arrangement

/-!
# Layouts read back

What a layout shows of a source can be read from it again: the declarations, the comments, and how
both are arranged (`Document.SameLayout`). Only the numbers of the lines change.

* `Document.ofSource_format`: the layout of a source without problems, under any configuration.
* `format_preserves`: the same for formatted sources.
-/

namespace ResourceDecl

open Text

/-- Two documents have the same declarations and comments, and each comment stands in front of,
on the line of, or behind the same declarations. -/
structure Document.SameLayout (d e : Document) : Prop where
  program : List.Forall₂ Statement.SameShape d.program e.program
  comments : List.Forall₂ (fun b c : Comment => b.text = c.text ∧ b.trailing = c.trailing)
    d.comments e.comments
  places : ∀ s ∈ d.program.zip e.program, ∀ c ∈ d.comments.zip e.comments,
    (c.1.line < s.1.line ↔ c.2.line < s.2.line) ∧ (c.1.line = s.1.line ↔ c.2.line = s.2.line)

/-! ## The text of a line -/

namespace LayoutLine

/-- The characters of a line without its line feed. -/
def body (options : PrintOptions) : LayoutLine → List Char
  | blank => []
  | comment c => c.text.toList
  | statement s none => (s.print options).toList
  | statement s (some c) => (s.print options).toList ++ ' ' :: c.text.toList

/-- What a line reads as. -/
def row (line : LayoutLine) : Row :=
  (line.statement?, line.comment?.map Comment.text)

theorem toList_text (options : PrintOptions) (line : LayoutLine) :
    (line.text options).toList = line.body options ++ ['\n'] := by
  cases line with
  | blank => simp [text, body]
  | comment => simp [text, body]
  | statement _ trailing => cases trailing <;> simp [text, body]

/-- The declaration of the line is well-formed and its comment is one. -/
structure Printable (line : LayoutLine) : Prop where
  statement : ∀ s ∈ line.statement?, s.WellFormed
  comment : ∀ c ∈ line.comment?, IsComment c.text.toList

theorem Printable.reads {line : LayoutLine} (h : line.Printable) (options : PrintOptions) :
    Reads (line.body options) line.row := by
  obtain ⟨hstatement, hcomment⟩ := h
  cases line with
  | blank => exact reads_nil
  | comment c => exact .plain (hcomment c rfl).lexes
  | statement s trailing =>
    have hs := hstatement s rfl
    cases trailing with
    | none =>
      have hlexes := hs.lexes_print options endsToken_nil (.blank rfl)
      rw [List.append_nil] at hlexes
      exact .statement hs hlexes
    | some c =>
      have hc : Lexes ([' '] ++ c.text.toList) [] (some c.text) :=
        (hcomment c rfl).lexes.gap (by simp [isInlineBlank])
      exact .statement hs (hs.lexes_print options (endsToken_cons.mpr rfl) hc)

theorem Printable.not_mem_body {line : LayoutLine} (h : line.Printable) (options : PrintOptions) :
    '\n' ∉ line.body options := by
  obtain ⟨hstatement, hcomment⟩ := h
  cases line with
  | blank => exact List.not_mem_nil
  | comment c => exact (hcomment c rfl).line
  | statement s trailing =>
    have hs := (hstatement s rfl).not_mem_print options
    cases trailing with
    | none => exact hs
    | some c =>
      have hc := (hcomment c rfl).line
      simp [body, hs, hc]

end LayoutLine

/-! ## Places -/

/-- The comment is a copy of the numbered one, on the line of that number. -/
def Comment.IsCopy (c : Comment) (p : Comment × Nat) : Prop :=
  (p.1.text = c.text ∧ p.1.trailing = c.trailing) ∧ c.line = p.2

/-- What the lines hold, with the number that each gets in the layout. -/
def placed {α : Type} (f : LayoutLine → Option α) (lines : List LayoutLine) : List (α × Nat) :=
  (lines.zipIdx 1).filterMap fun (line, k) => (f line).map fun a => (a, k)

theorem map_fst_placed {α : Type} (f : LayoutLine → Option α) (lines : List LayoutLine) :
    (placed f lines).map Prod.fst = lines.filterMap f := by
  have hfst : ((lines.zipIdx 1).filterMap fun (line, k) => (f line).map fun a => (a, k)).map
      Prod.fst = ((lines.zipIdx 1).map Prod.fst).filterMap f := by
    rw [List.map_filterMap, List.filterMap_map]
    apply List.filterMap_congr
    rintro ⟨line, k⟩ -
    cases hf : f line <;> simp [hf]
  rw [placed, hfst, List.zipIdx_map_fst]

theorem exists_line_of_mem_placed {α : Type} {f : LayoutLine → Option α} {lines : List LayoutLine}
    {p : α × Nat} (h : p ∈ placed f lines) :
    ∃ line, (line, p.2) ∈ lines.zipIdx 1 ∧ f line = some p.1 := by
  obtain ⟨⟨line, k⟩, hm, hline⟩ := List.mem_filterMap.mp h
  obtain ⟨a, ha, rfl⟩ := Option.map_eq_some_iff.mp hline
  exact ⟨line, hm, ha⟩

/-- What is read where the lines placed it stands, in order, on the lines that hold it. -/
theorem forall₂_of_placed {α β : Type} {f : LayoutLine → Option α} {lines : List LayoutLine}
    {R : β → α → Prop} {number : β → Nat} {read : List β}
    (h : List.Forall₂ (fun b p => R b p.1 ∧ number b = p.2) read (placed f lines)) :
    List.Forall₂ (fun a b => R b a ∧
      ∃ line, (line, number b) ∈ lines.zipIdx 1 ∧ f line = some a) (lines.filterMap f) read := by
  rw [← map_fst_placed, List.forall₂_map_left_iff]
  have hheld := (List.forall₂_and_left (placed f lines) read).mpr
    ⟨fun _ hp => exists_line_of_mem_placed hp, h.flip⟩
  apply hheld.imp
  rintro p b ⟨⟨line, hm, hline⟩, hsame, hnumber⟩
  exact ⟨hsame, line, hnumber ▸ hm, hline⟩

theorem numberedStatements_map_row (lines : List LayoutLine) :
    numberedStatements 1 (lines.map LayoutLine.row) = placed LayoutLine.statement? lines := by
  rw [numberedStatements, List.zipIdx_map, List.filterMap_map]
  rfl

theorem numberedComments_map_row {lines : List LayoutLine}
    (h : ∀ line ∈ lines, ∀ c ∈ line.comment?, line.statement?.isSome = c.trailing) :
    numberedComments 1 (lines.map LayoutLine.row) =
      (placed LayoutLine.comment? lines).map fun (c, k) => (c.text, k, c.trailing) := by
  rw [numberedComments, List.zipIdx_map, List.filterMap_map, placed, List.map_filterMap]
  apply List.filterMap_congr
  rintro ⟨line, k⟩ hm
  have hline := h line (List.fst_mem_of_mem_zipIdx hm)
  cases hc : line.comment? with
  | none => simp [LayoutLine.row, hc]
  | some c => simp [LayoutLine.row, hc, hline c hc]

/-! ## Documents -/

variable {source : String}

theorem Document.printable_of_arranges {lines : List LayoutLine}
    (h : Arranges (ofSource source).program (ofSource source).comments lines)
    {line : LayoutLine} (hm : line ∈ lines) : line.Printable where
  statement _ hs := wellFormed_of_mem_program (h.mem_program hm hs)
  comment _ hc := isComment_of_mem_comments (h.mem_comments hm hc)

/-- Lines that arrange a source without problems are read back in their places, also when the last
line feed is missing. -/
theorem Document.ofSource_of_arranges (hproblems : (ofSource source).problems = [])
    {lines : List LayoutLine}
    (h : Arranges (ofSource source).program (ofSource source).comments lines)
    {options : PrintOptions} {output : String}
    (houtput : output.toList = lines.flatMap (fun line => (line.text options).toList) ∨
      output.toList = (lines.flatMap fun line => (line.text options).toList).dropLast) :
    (ofSource output).problems = [] ∧
      List.Forall₂ Statement.IsCopy (ofSource output).program
        (placed LayoutLine.statement? lines) ∧
      List.Forall₂ Comment.IsCopy (ofSource output).comments
        (placed LayoutLine.comment? lines) := by
  have hprintable : ∀ line ∈ lines, line.Printable := fun _ => printable_of_arranges h
  have htext : lines.flatMap (fun line => (line.text options).toList) =
      (lines.map fun line => line.body options).flatMap (· ++ ['\n']) := by
    simp [List.flatMap_map, LayoutLine.toList_text]
  rw [htext] at houtput
  have hlines : ∀ text ∈ lines.map fun line => line.body options, '\n' ∉ text := by
    intro text ht
    obtain ⟨line, hm, rfl⟩ := List.mem_map.mp ht
    exact (hprintable line hm).not_mem_body options
  have hreads : List.Forall₂ Reads
      (lines.map fun line => line.body options) (lines.map LayoutLine.row) := by
    rw [List.forall₂_map_left_iff, List.forall₂_map_right_iff, List.forall₂_same]
    exact fun line hm => (hprintable line hm).reads options
  -- A comment is trailing in the output if it shares its line, and so it is in the source.
  have htrailing : ∀ line ∈ lines, ∀ c ∈ line.comment?, line.statement?.isSome = c.trailing := by
    intro line hm c hc
    rw [Bool.eq_iff_iff, h.isSome_statement? hm hc]
    exact (trailing_iff hproblems (h.mem_comments hm hc)).symm
  obtain ⟨hclean, hprogram, hcomments⟩ := ofSource_of_lines houtput hreads hlines
  rw [numberedStatements_map_row] at hprogram
  rw [numberedComments_map_row htrailing, ← List.forall₂_eq_eq_eq, List.forall₂_map_left_iff,
    List.forall₂_map_right_iff] at hcomments
  refine ⟨hclean, hprogram, hcomments.imp ?_⟩
  intro c p heq
  simp only [Prod.mk.injEq] at heq
  exact ⟨⟨heq.1.symm, heq.2.2.symm⟩, heq.2.1⟩

theorem Document.sameLayout_of_arranges {output : String} {lines : List LayoutLine}
    (h : Arranges (ofSource source).program (ofSource source).comments lines)
    (hprogram : List.Forall₂ Statement.IsCopy (ofSource output).program
      (placed LayoutLine.statement? lines))
    (hcomments : List.Forall₂ Comment.IsCopy (ofSource output).comments
      (placed LayoutLine.comment? lines)) :
    (ofSource source).SameLayout (ofSource output) := by
  have hstatements := forall₂_of_placed hprogram
  have hremarks := forall₂_of_placed (R := fun b c : Comment =>
    c.text = b.text ∧ c.trailing = b.trailing) hcomments
  rw [h.filterMap_statement?] at hstatements
  rw [h.filterMap_comment?] at hremarks
  refine ⟨hstatements.imp fun _ _ hs => hs.1.symm, hremarks.imp fun _ _ hc => hc.1, ?_⟩
  rintro ⟨s, t⟩ hs ⟨c, d⟩ hc
  obtain ⟨-, a, ha, hsource⟩ := List.forall₂_zip hstatements hs
  obtain ⟨-, b, hb, htarget⟩ := List.forall₂_zip hremarks hc
  apply h.compare_places hb ha
  · exact h.source?_eq_of_comment? (List.fst_mem_of_mem_zipIdx hb) htarget
  · exact Arranges.source?_eq_of_statement? hsource

theorem LayoutConfig.toList_lines (config : LayoutConfig) (program : Program)
    (comments : List Comment) : (config.lines program comments).toList =
      (layoutLines config.separateGroups none program comments).flatMap fun line =>
        (line.text (config.printOptions program)).toList := by
  simp [lines, List.flatMap_map]

theorem LayoutConfig.toList_format (config : LayoutConfig) (program : Program)
    (comments : List Comment) :
    (config.format program comments).toList = (config.lines program comments).toList ∨
      (config.format program comments).toList =
        (config.lines program comments).toList.dropLast := by
  rw [format]
  by_cases hfinal : config.finalNewline = true
  · rw [if_pos hfinal]
    exact .inl rfl
  · rw [if_neg hfinal]
    exact .inr String.toList_ofList

/-- The layout of a source without problems has none either and is arranged like the source. -/
theorem Document.ofSource_format (config : LayoutConfig)
    (hproblems : (ofSource source).problems = []) :
    let d := ofSource source
    let e := ofSource (config.format d.program d.comments)
    e.problems = [] ∧ d.SameLayout e := by
  intro d e
  have harranges := arranges_layoutLines config.separateGroups none (pairwise_program source)
    (pairwise_comments source)
  have hformat := config.toList_format d.program d.comments
  rw [config.toList_lines] at hformat
  obtain ⟨hclean, hprogram, hcomments⟩ := ofSource_of_arranges hproblems harranges hformat
  exact ⟨hclean, sameLayout_of_arranges harranges hprogram hcomments⟩

theorem format_eq_ok_iff {config : LayoutConfig} {formatted : String} :
    format config source = .ok formatted ↔ (Document.ofSource source).problems = [] ∧
      config.format (Document.ofSource source).program (Document.ofSource source).comments =
        formatted := by
  rw [format, Document.format]
  by_cases hproblems : (Document.ofSource source).problems = []
  · simp [hproblems]
  · simp [hproblems]

/-- A formatted source has no problems, and its declarations and comments are those of the source
it is made from, arranged in the same way. -/
theorem format_preserves {config : LayoutConfig} {formatted : String}
    (h : format config source = .ok formatted) :
    (Document.ofSource formatted).problems = [] ∧
      (Document.ofSource source).SameLayout (Document.ofSource formatted) := by
  obtain ⟨hproblems, rfl⟩ := format_eq_ok_iff.mp h
  exact Document.ofSource_format config hproblems

theorem format_preserves_comments :
    let source := "# art\nBITMAP  b \"a.png\"// big\nWAV x \"y.wav\" PCM"
    let formatted := "# art\nBITMAP b \"a.png\" // big\n\nWAV x \"y.wav\" PCM"
    format { finalNewline := false } source = .ok formatted ∧
      (Document.ofSource formatted).problems = [] ∧
      (Document.ofSource source).SameLayout (Document.ofSource formatted) := by
  intro source formatted
  have hformatted : format { finalNewline := false } source = .ok formatted := by
    decide +kernel
  exact ⟨hformatted, format_preserves hformatted⟩

end ResourceDecl
