import Mathlib.Order.Bounds.Basic
import ResourceDecl.Proofs.Layout.Blocks
import ResourceDecl.Proofs.Statements.Endings

/-!
# How layouts look

What a reader sees of the formatted text, line by line (`LaidOut`): the lines of the blocks, which
are not blank and do not end in white space, single blank lines where a block breaks with the one
before it, the first fields in one column if they are aligned, and one line feed at the end if it is
wanted. `format_appearance` says so of every source without problems.
-/

namespace ResourceDecl

open Text

/-! ## Blank lines -/

/-- The line is nothing but white space. -/
def IsBlankLine (line : List Char) : Prop :=
  ∀ c ∈ line, isBlank c

theorem EndsVisibly.not_isBlankLine {line : List Char} (h : EndsVisibly line) :
    ¬ IsBlankLine line := by
  obtain ⟨front, c, rfl, hc⟩ := h
  intro hblank
  rw [hblank c (by simp)] at hc
  cases hc

theorem EndsVisibly.getLast? {line : List Char} (h : EndsVisibly line) :
    ∀ c ∈ line.getLast?, isBlank c = false := by
  obtain ⟨front, c, rfl, hc⟩ := h
  simpa using hc

/-! ## The lines of a text -/

theorem dropReturn_eq_self {line : List Char} (h : line.getLast? ≠ some '\r') :
    dropReturn line = line :=
  if_neg h

section Cut

variable {lines : List (List Char)} (hlines : ∀ line ∈ lines, '\n' ∉ line)
  (hreturn : ∀ line ∈ lines, line.getLast? ≠ some '\r')

include hlines hreturn

theorem contents_lines : contents (lines.flatMap (· ++ ['\n'])) = lines := by
  have hcut := pieces_lines hlines (List.not_mem_nil (a := '\n'))
  rw [List.append_nil] at hcut
  have hmap : lines.map dropReturn = lines :=
    (List.map_congr_left fun line hm => dropReturn_eq_self (hreturn line hm)).trans
      (List.map_id lines)
  simp [contents, hcut, hmap]

theorem contents_dropLast (hlast : lines.getLast? ≠ some []) :
    contents (lines.flatMap (· ++ ['\n'])).dropLast = lines := by
  rcases List.eq_nil_or_concat' lines with rfl | ⟨front, last, rfl⟩
  · rfl
  · obtain ⟨hfront, hend⟩ := List.forall_mem_append.mp hlines
    have hcut := pieces_lines hfront (hend last (by simp))
    have hmap : front.map dropReturn = front :=
      (List.map_congr_left fun line hm =>
        dropReturn_eq_self (hreturn line (List.mem_append_left _ hm))).trans (List.map_id front)
    have hne : last ≠ [] := by simpa using hlast
    have htext : ((front ++ [last]).flatMap (· ++ ['\n'])).dropLast =
        front.flatMap (· ++ ['\n']) ++ last := by
      simp [← List.append_assoc]
    rw [htext]
    simp [contents, hcut, hmap, hne]

end Cut

/-! ## Columns -/

/-- The width is the length of the longest keyword with fields behind it. -/
theorem isGreatest_keywordWidth {program : Program} {s : Statement} (hs : s ∈ program)
    (hfields : s.fields ≠ []) :
    IsGreatest {n | ∃ t ∈ program, t.fields ≠ [] ∧ t.keyword.spelling.length = n}
      (keywordWidth program) := by
  have hmax : (0 :: (program.filter fun t => !t.fields.isEmpty).map fun t =>
      t.keyword.spelling.length).max? = some (keywordWidth program) :=
    List.max?_cons'
  obtain ⟨hmem, hbound⟩ := List.max?_eq_some_iff.mp hmax
  have hle {t : Statement} (ht : t ∈ program) (hne : t.fields ≠ []) :
      t.keyword.spelling.length ≤ keywordWidth program := by
    apply hbound
    simp only [List.mem_cons, List.mem_map, List.mem_filter]
    exact .inr ⟨t, ⟨ht, by simpa using hne⟩, rfl⟩
  constructor
  · rcases List.mem_cons.mp hmem with hzero | hmem
    · exact ⟨s, hs, hfields, by have := hle hs hfields; omega⟩
    · obtain ⟨t, ht, hlength⟩ := List.mem_map.mp hmem
      obtain ⟨ht, hne⟩ := List.mem_filter.mp ht
      exact ⟨t, ht, by simpa using hne, hlength⟩
  · rintro n ⟨t, ht, hne, rfl⟩
    exact hle ht hne

/-- The first field of a printed declaration stands behind the padded keyword and a separator. -/
theorem Statement.toList_print_cons (options : PrintOptions) {s : Statement} {first : Field}
    {rest : List Field} (hfields : s.fields = first :: rest) :
    ∃ tail, (s.print options).toList = s.keyword.spelling.toList ++
      List.replicate ((options.keywordWidth - s.keyword.spelling.length) +
        max options.fieldSeparator 1) ' ' ++
      (first.value.print options.separator).toList ++ tail := by
  refine ⟨(String.join (rest.map fun field =>
    options.separator ++ field.value.print options.separator)).toList, ?_⟩
  rw [List.replicate_add]
  simp [print, hfields, padRight, PrintOptions.separator, spaces, List.append_assoc,
    -List.replicate_append_replicate]

theorem Block.line_aligned {config : LayoutConfig} (halign : config.alignKeywords = true)
    {program : Program} {b : Block} (hmem : b.statement ∈ program) {first : Field}
    {rest : List Field} (hfields : b.statement.fields = first :: rest) : ∃ longest gap tail,
      IsGreatest {n | ∃ s ∈ program, s.fields ≠ [] ∧ s.keyword.spelling.length = n} longest ∧
        b.line (config.printOptions program) =
          b.statement.keyword.spelling.toList ++ List.replicate gap ' ' ++
            (first.value.print (config.printOptions program).separator).toList ++ tail ∧
        b.statement.keyword.spelling.length + gap = longest + max config.fieldSeparator 1 := by
  have hgreatest := isGreatest_keywordWidth hmem (by simp [hfields])
  have hle := hgreatest.2 ⟨_, hmem, by simp [hfields], rfl⟩
  obtain ⟨tail, hprint⟩ := Statement.toList_print_cons (config.printOptions program) hfields
  obtain ⟨remark, hline⟩ : ∃ remark, b.line (config.printOptions program) =
      (b.statement.print (config.printOptions program)).toList ++ remark := by
    cases htrailing : b.trailing with
    | none => exact ⟨[], by simp [line, LayoutLine.body, htrailing]⟩
    | some c => exact ⟨' ' :: c.text.toList, by simp [line, LayoutLine.body, htrailing]⟩
  refine ⟨keywordWidth program, keywordWidth program - b.statement.keyword.spelling.length +
    max config.fieldSeparator 1, tail ++ remark, hgreatest, ?_, by omega⟩
  rw [hline, hprint, List.append_assoc _ tail remark]
  simp only [LayoutConfig.printOptions, halign, if_true]

/-! ## Formatted sources -/

namespace LayoutLine

variable {line : LayoutLine}

theorem flatMap_text (options : PrintOptions) (lines : List LayoutLine) :
    lines.flatMap (fun line => (line.text options).toList) =
      (lines.map (body options)).flatMap (· ++ ['\n']) := by
  simp [List.flatMap_map, toList_text]

theorem Printable.endsVisibly (h : line.Printable) (options : PrintOptions) (hne : line ≠ .blank) :
    EndsVisibly (line.body options) := by
  obtain ⟨hstatement, hcomment⟩ := h
  cases line with
  | blank => exact absurd rfl hne
  | comment c => exact (hcomment c rfl).endsVisibly
  | statement s trailing =>
    cases trailing with
    | none => exact (hstatement s rfl).endsVisibly_print options
    | some c => exact ((hcomment c rfl).endsVisibly.append_front [' ']).append_front _

theorem Printable.isBlankLine_iff (h : line.Printable) (options : PrintOptions) :
    IsBlankLine (line.body options) ↔ line = .blank := by
  constructor
  · intro hblank
    by_contra hne
    exact (h.endsVisibly options hne).not_isBlankLine hblank
  · rintro rfl
    intro c hc
    cases hc

theorem Printable.getLast?_body (h : line.Printable) (options : PrintOptions) :
    ∀ c ∈ (line.body options).getLast?, isBlank c = false := by
  by_cases hne : line = .blank
  · rw [hne]
    rintro c ⟨⟩
  · exact (h.endsVisibly options hne).getLast?

end LayoutLine

section Lines

variable {lines : List LayoutLine} (hprintable : ∀ line ∈ lines, line.Printable)
  (options : PrintOptions)

include hprintable

theorem isBlank_getLast? :
    ∀ text ∈ lines.map (LayoutLine.body options), ∀ c ∈ text.getLast?, isBlank c = false := by
  rintro text ht
  obtain ⟨line, hm, rfl⟩ := List.mem_map.mp ht
  exact (hprintable line hm).getLast?_body options

theorem Airy.isChain_body (h : Airy lines) :
    (lines.map (LayoutLine.body options)).IsChain
      fun a b => ¬ (IsBlankLine a ∧ IsBlankLine b) := by
  rw [List.isChain_map]
  refine h.isChain.imp_of_mem_imp fun a b ha hb hnot hblank => hnot ?_
  exact ⟨((hprintable a ha).isBlankLine_iff options).mp hblank.1,
    ((hprintable b hb).isBlankLine_iff options).mp hblank.2⟩

theorem not_isBlankLine_head? (hhead : lines.head? ≠ some .blank) :
    ∀ text ∈ (lines.map (LayoutLine.body options)).head?, ¬ IsBlankLine text := by
  intro text ht hblank
  rw [List.head?_map] at ht
  obtain ⟨line, hline, rfl⟩ := Option.map_eq_some_iff.mp ht
  rw [((hprintable line (List.mem_of_mem_head? hline)).isBlankLine_iff options).mp hblank] at hline
  exact hhead hline

/-- The lines of blocks and closing comments end visibly. -/
theorem endsVisibly_of_stackBlocks {separate : Bool} {previous : Option Category}
    {blocks : List Block} {closing : List Comment}
    (hlines : lines = stackBlocks .blank Block.layout separate previous blocks ++
      closing.map .comment) :
    ∀ text ∈ blocks.flatMap (Block.lines options) ++ closing.map (fun c => c.text.toList),
      EndsVisibly text := by
  have hends {line : LayoutLine} (hm : line ∈ lines) (hne : line ≠ .blank) :
      EndsVisibly (line.body options) :=
    (hprintable line hm).endsVisibly options hne
  subst hlines
  refine List.forall_mem_append.mpr ⟨fun text ht => ?_, fun text ht => ?_⟩
  · obtain ⟨b, hb, ht⟩ := List.mem_flatMap.mp ht
    rw [← b.map_body_layout] at ht
    obtain ⟨line, hline, rfl⟩ := List.mem_map.mp ht
    refine hends (List.mem_append_left _ (mem_stackBlocks_of_mem hb hline)) ?_
    rintro rfl
    simp [Block.layout] at hline
  · obtain ⟨c, hc, rfl⟩ := List.mem_map.mp ht
    exact hends (List.mem_append_right _ (List.mem_map_of_mem hc)) (by simp)

theorem Airy.getLast?_body_ne (h : Airy lines) :
    (lines.map (LayoutLine.body options)).getLast? ≠ some [] := by
  rw [List.getLast?_map]
  intro hnil
  obtain ⟨line, hline, hbody⟩ := Option.map_eq_some_iff.mp hnil
  have hblank : IsBlankLine (line.body options) := by
    rw [hbody]
    exact List.forall_mem_nil _
  have hprintable := hprintable line (List.mem_of_getLast? hline)
  exact h.getLast?_ne ((hprintable.isBlankLine_iff options).mp hblank ▸ hline)

/-- Without or with its last line feed, the text has the lines of the layout. -/
theorem Airy.contents_eq (h : Airy lines) :
    contents (lines.flatMap fun line => (line.text options).toList) =
        lines.map (LayoutLine.body options) ∧
      contents (lines.flatMap fun line => (line.text options).toList).dropLast =
        lines.map (LayoutLine.body options) := by
  have hfeed : ∀ text ∈ lines.map (LayoutLine.body options), '\n' ∉ text := by
    intro text ht
    obtain ⟨line, hm, rfl⟩ := List.mem_map.mp ht
    exact (hprintable line hm).not_mem_body options
  have hreturn : ∀ text ∈ lines.map (LayoutLine.body options), text.getLast? ≠ some '\r' := by
    intro text ht hlast
    exact absurd (isBlank_getLast? hprintable options text ht _ hlast) (by decide)
  rw [LayoutLine.flatMap_text]
  exact ⟨contents_lines hfeed hreturn,
    contents_dropLast hfeed hreturn (h.getLast?_body_ne hprintable options)⟩

end Lines

namespace LayoutConfig

variable {config : LayoutConfig} {program : Program} {comments : List Comment}
  (hprintable : ∀ line ∈ layoutLines config.separateGroups none program comments, line.Printable)

include hprintable

theorem contents_format : contents (config.format program comments).toList =
    (layoutLines config.separateGroups none program comments).map
      (LayoutLine.body (config.printOptions program)) := by
  have hairy := airy_layoutLines config.separateGroups none program comments
  have hboth := hairy.contents_eq hprintable (config.printOptions program)
  rcases config.toList_format program comments with heq | heq
  · rw [heq, config.toList_lines]
    exact hboth.1
  · rw [heq, config.toList_lines]
    exact hboth.2

/-- Any text at all ends visibly, with a line feed behind it if one is wanted. -/
theorem exists_text (hne : config.format program comments ≠ "") :
    ∃ text : String, EndsVisibly text.toList ∧
      config.format program comments = if config.finalNewline then text ++ "\n" else text := by
  have hairy := airy_layoutLines config.separateGroups none program comments
  have htext := config.toList_lines program comments
  generalize layoutLines config.separateGroups none program comments = lines
    at hprintable hairy htext
  rcases List.eq_nil_or_concat' lines with rfl | ⟨front, last, rfl⟩
  · have hnil : config.lines program comments = "" := String.toList_eq_nil_iff.mp htext
    rw [format, hnil] at hne
    split at hne <;> exact absurd rfl hne
  · have hlast : last ≠ .blank := by simpa using hairy.getLast?_ne
    refine ⟨String.ofList (front.flatMap (fun line =>
      (line.text (config.printOptions program)).toList) ++
        last.body (config.printOptions program)), ?_, ?_⟩
    · rw [String.toList_ofList]
      exact ((hprintable last (by simp)).endsVisibly _ hlast).append_front _
    · rw [← String.toList_inj, format]
      split
      · rw [htext]
        simp [LayoutLine.toList_text]
      · rw [htext]
        simp [LayoutLine.toList_text, ← List.append_assoc]

/-- Without declarations and comments there is no text, and else there is. -/
theorem format_eq_empty_iff :
    config.format program comments = "" ↔ program = [] ∧ comments = [] := by
  constructor
  · intro hnil
    have hcontents := contents_format hprintable
    rw [hnil] at hcontents
    have hlines := List.map_eq_nil_iff.mp hcontents.symm
    have hprogram := filterMap_statement?_layoutLines config.separateGroups none program comments
    have hcomments := filterMap_comment?_layoutLines config.separateGroups none program comments
    rw [hlines] at hprogram hcomments
    exact ⟨hprogram.symm, hcomments.symm⟩
  · rintro ⟨rfl, rfl⟩
    rw [format]
    split <;> rfl

end LayoutConfig

/-- The formatted text of a document in lines, given by blocks and closing comments. -/
structure LaidOut (config : LayoutConfig) (document : Document) (blocks : List Block)
    (closing : List Comment) (formatted : String) : Prop where
  /-- No line ends in white space. -/
  trimmed : ∀ line ∈ contents formatted.toList, ∀ c ∈ line.getLast?, isBlank c = false
  /-- No blank line comes first. -/
  first : ∀ line ∈ (contents formatted.toList).head?, ¬ IsBlankLine line
  /-- No two blank lines stand one below the other. -/
  single : (contents formatted.toList).IsChain fun a b => ¬ (IsBlankLine a ∧ IsBlankLine b)
  /-- The blocks and the closing comments are those of the document. -/
  parts : Blocks document.program document.comments blocks closing
  /-- The lines are theirs, but for a blank line in front of each block that breaks with the one
  before it. -/
  lines : contents formatted.toList =
    stackBlocks [] (Block.lines (config.printOptions document.program)) config.separateGroups none
      blocks ++ closing.map fun c => c.text.toList
  /-- No line of a block and no closing comment is blank. -/
  visible : ∀ line ∈ blocks.flatMap (Block.lines (config.printOptions document.program)) ++
    closing.map (fun c => c.text.toList), ¬ IsBlankLine line
  /-- If groups are not kept apart, no line is blank. -/
  compact : config.separateGroups = false → ∀ line ∈ contents formatted.toList, ¬ IsBlankLine line
  empty : formatted = "" ↔ document.program = [] ∧ document.comments = []
  /-- One line feed ends the text, or none. -/
  ended : config.finalNewline = true → formatted ≠ "" →
    ∃ text, formatted = text ++ "\n" ∧ text.toList.getLast? ≠ some '\n'
  unended : config.finalNewline = false → formatted.toList.getLast? ≠ some '\n'
  /-- The first fields start in one column, behind the longest keyword that has fields. -/
  aligned : config.alignKeywords = true → ∀ b ∈ blocks, ∀ first rest,
    b.statement.fields = first :: rest → ∃ longest gap tail,
      IsGreatest {n | ∃ s ∈ document.program, s.fields ≠ [] ∧ s.keyword.spelling.length = n}
          longest ∧
        b.line (config.printOptions document.program) =
          b.statement.keyword.spelling.toList ++ List.replicate gap ' ' ++
            (first.value.print (config.printOptions document.program).separator).toList ++ tail ∧
        b.statement.keyword.spelling.length + gap = longest + max config.fieldSeparator 1

/-- What is printable has its layout. -/
theorem laidOut_format (config : LayoutConfig) {document : Document}
    (hprogram : document.program.Pairwise fun s t => s.line < t.line)
    (hcomments : document.comments.Pairwise fun c d => c.line < d.line)
    (hprintable : ∀ line ∈
      layoutLines config.separateGroups none document.program document.comments, line.Printable) :
    ∃ blocks closing, LaidOut config document blocks closing
      (config.format document.program document.comments) := by
  obtain ⟨blocks, closing, hparts, hlayout⟩ :=
    exists_blocks config.separateGroups none hprogram hcomments
  have hairy := airy_layoutLines config.separateGroups none document.program document.comments
  have hhead := head?_layoutLines_ne config.separateGroups document.program document.comments
  have hcontents := LayoutConfig.contents_format hprintable
  have hempty := LayoutConfig.format_eq_empty_iff hprintable
  have hvisible := endsVisibly_of_stackBlocks hprintable (config.printOptions document.program)
    hlayout
  have hlines : contents (config.format document.program document.comments).toList =
      stackBlocks [] (Block.lines (config.printOptions document.program)) config.separateGroups
        none blocks ++ closing.map fun c => c.text.toList := by
    rw [hcontents, hlayout, List.map_append, map_stackBlocks, List.map_map]
    simp only [Block.map_body_layout]
    rfl
  have hended {text : String} (h : EndsVisibly text.toList) : text.toList.getLast? ≠ some '\n' := by
    intro hlast
    exact absurd (h.getLast? _ hlast) (by decide)
  refine ⟨blocks, closing, ?_, ?_, ?_, hparts, hlines,
    fun text ht => (hvisible text ht).not_isBlankLine, ?_, hempty, ?_, ?_, ?_⟩
  · rw [hcontents]
    exact isBlank_getLast? hprintable _
  · rw [hcontents]
    exact not_isBlankLine_head? hprintable _ hhead
  · rw [hcontents]
    exact hairy.isChain_body hprintable _
  · intro hseparate text ht
    rw [hlines, hseparate] at ht
    apply (hvisible text _).not_isBlankLine
    rcases List.mem_append.mp ht with ht | ht
    · obtain ⟨b, hb, ht⟩ := exists_of_mem_stackBlocks ht
      exact List.mem_append_left _ (List.mem_flatMap.mpr ⟨b, hb, ht⟩)
    · exact List.mem_append_right _ ht
  · intro hfinal hne
    obtain ⟨text, hends, heq⟩ := LayoutConfig.exists_text hprintable hne
    rw [if_pos hfinal] at heq
    exact ⟨text, heq, hended hends⟩
  · intro hfinal
    by_cases hne : config.format document.program document.comments = ""
    · rw [hne]
      simp
    · obtain ⟨text, hends, heq⟩ := LayoutConfig.exists_text hprintable hne
      rw [hfinal] at heq
      rw [heq]
      exact hended hends
  · intro halign b hb first rest hfields
    have hmem : b.statement ∈ document.program := by
      rw [← hparts.program]
      exact List.mem_map_of_mem hb
    exact Block.line_aligned halign hmem hfields

/-- A source without problems is formatted, and its text is laid out. -/
theorem format_appearance {source : String} (hproblems : (Document.ofSource source).problems = [])
    (config : LayoutConfig) :
    ∃ formatted blocks closing, format config source = .ok formatted ∧
      LaidOut config (Document.ofSource source) blocks closing formatted := by
  have harranges := arranges_layoutLines config.separateGroups none
    (Document.pairwise_program source) (Document.pairwise_comments source)
  obtain ⟨blocks, closing, hlaid⟩ := laidOut_format config (Document.pairwise_program source)
    (Document.pairwise_comments source) fun _ => Document.printable_of_arranges harranges
  exact ⟨_, blocks, closing, format_eq_ok_iff.mpr ⟨hproblems, rfl⟩, hlaid⟩

theorem format_appearance_aligned :
    let source := "#a\nNEAR\nALIGN\t4 # b \n\n# c\nBITMAP b \"x.png\""
    let config : LayoutConfig := { alignKeywords := true }
    (Document.ofSource source).problems = [] ∧
      format config source =
        .ok "#a\nNEAR\nALIGN  4 # b\n\n# c\nBITMAP b \"x.png\"\n" ∧
      ∃ formatted blocks closing, format config source = .ok formatted ∧
        LaidOut config (Document.ofSource source) blocks closing formatted := by
  intro source config
  have hformatted : format config source =
      .ok "#a\nNEAR\nALIGN  4 # b\n\n# c\nBITMAP b \"x.png\"\n" := by
    decide +kernel
  have hproblems := (format_eq_ok_iff.mp hformatted).1
  exact ⟨hproblems, hformatted, format_appearance hproblems config⟩

end ResourceDecl
