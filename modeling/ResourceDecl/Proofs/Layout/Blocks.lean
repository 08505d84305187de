import Mathlib.Data.List.Chain
import ResourceDecl.Proofs.Layout.Placement

/-!
# Blocks of a layout

The lines of a layout in blocks: a declaration with the comments above it and the one behind it
(`Block`). Blocks stand one below the other, with a blank line in front of each whose group is
another than that of the block before it (`exists_blocks`). No blank line comes first, last, or
next to another one (`Airy`).
-/

namespace ResourceDecl

/-! ## Blocks -/

/-- A declaration with the comments above it and the one behind it. -/
structure Block where
  above : List Comment
  statement : Statement
  trailing : Option Comment

namespace Block

def comments (b : Block) : List Comment :=
  b.above ++ b.trailing.toList

def layout (b : Block) : List LayoutLine :=
  b.above.map .comment ++ [.statement b.statement b.trailing]

/-- The line of the declaration as it is written. -/
def line (options : PrintOptions) (b : Block) : List Char :=
  (LayoutLine.statement b.statement b.trailing).body options

/-- The lines of the block as they are written. -/
def lines (options : PrintOptions) (b : Block) : List (List Char) :=
  b.above.map (fun c => c.text.toList) ++ [b.line options]

theorem map_body_layout (options : PrintOptions) (b : Block) :
    b.layout.map (LayoutLine.body options) = b.lines options := by
  simp [layout, lines, line, LayoutLine.body]

/-- A blank line stands in front of the block if groups are kept apart and the declaration before
it is of another one. -/
def Breaks (separate : Bool) (previous : Option Category) (b : Block) : Prop :=
  separate = true ∧ ∃ category ∈ previous, category ≠ b.statement.keyword.category

instance (separate : Bool) (previous : Option Category) (b : Block) :
    Decidable (b.Breaks separate previous) :=
  match previous with
  | none => .isFalse (by simp [Breaks])
  | some category =>
    decidable_of_iff (separate = true ∧ category ≠ b.statement.keyword.category)
      (by simp [Breaks])

end Block

/-- What the blocks hold, one below the other, with `gap` in front of each block that breaks with
the one before it. -/
def stackBlocks {α : Type} (gap : α) (items : Block → List α) (separate : Bool) :
    Option Category → List Block → List α
  | _, [] => []
  | previous, b :: blocks =>
    (if b.Breaks separate previous then [gap] else []) ++ items b ++
      stackBlocks gap items separate (some b.statement.keyword.category) blocks

section Stack

variable {α β : Type} {gap : α} {items : Block → List α} {separate : Bool}
  {previous : Option Category} {blocks : List Block}

theorem map_stackBlocks (f : α → β) :
    (stackBlocks gap items separate previous blocks).map f =
      stackBlocks (f gap) (fun b => (items b).map f) separate previous blocks := by
  induction blocks generalizing previous with
  | nil => rfl
  | cons b blocks ih =>
    rw [stackBlocks, stackBlocks, List.map_append, List.map_append, ih, apply_ite (List.map f)]
    rfl

theorem mem_stackBlocks_of_mem {b : Block} (hb : b ∈ blocks) {a : α} (ha : a ∈ items b) :
    a ∈ stackBlocks gap items separate previous blocks := by
  induction blocks generalizing previous with
  | nil => cases hb
  | cons first blocks ih =>
    rw [stackBlocks]
    rcases List.mem_cons.mp hb with rfl | hb
    · exact List.mem_append_left _ (List.mem_append_right _ ha)
    · exact List.mem_append_right _ (ih hb)

theorem exists_of_mem_stackBlocks {a : α}
    (ha : a ∈ stackBlocks gap items false previous blocks) : ∃ b ∈ blocks, a ∈ items b := by
  induction blocks generalizing previous with
  | nil => cases ha
  | cons b blocks ih =>
    rw [stackBlocks, if_neg (by simp [Block.Breaks]), List.nil_append] at ha
    rcases List.mem_append.mp ha with ha | ha
    · exact ⟨b, List.mem_cons_self, ha⟩
    · obtain ⟨other, hother, ha⟩ := ih ha
      exact ⟨other, List.mem_cons_of_mem _ hother, ha⟩

end Stack

/-- The blocks hold the program, and the comments that stand above and on the lines of their
declarations; the others are closing comments. -/
structure Blocks (program : Program) (comments : List Comment) (blocks : List Block)
    (closing : List Comment) : Prop where
  program : blocks.map Block.statement = program
  comments : blocks.flatMap Block.comments ++ closing = comments
  above : ∀ b ∈ blocks, ∀ c ∈ b.above, c.line < b.statement.line
  trailing : ∀ b ∈ blocks, ∀ c ∈ b.trailing, c.line = b.statement.line
  ordered : blocks.Pairwise fun a b => ∀ c ∈ b.comments, a.statement.line < c.line
  closing : ∀ b ∈ blocks, ∀ c ∈ closing, b.statement.line < c.line

theorem gap_eq (separate : Bool) (previous : Option Category) (b : Block) :
    (if separate then groupBreak previous b.statement else []) =
      if b.Breaks separate previous then [.blank] else [] := by
  unfold groupBreak
  cases separate <;> cases previous <;> simp [Block.Breaks]

theorem exists_blocks (separate : Bool) (previous : Option Category) {program : Program}
    {comments : List Comment} (hprogram : program.Pairwise fun s t => s.line < t.line)
    (hcomments : comments.Pairwise fun c d => c.line < d.line) :
    ∃ blocks closing, Blocks program comments blocks closing ∧
      layoutLines separate previous program comments =
        stackBlocks .blank Block.layout separate previous blocks ++ closing.map .comment := by
  induction program generalizing previous comments with
  | nil => exact ⟨[], comments, ⟨rfl, rfl, by simp, by simp, .nil, by simp⟩, rfl⟩
  | cons s program ih =>
    obtain ⟨hs, hrest⟩ := List.pairwise_cons.mp hprogram
    obtain ⟨hsplit, habove, htrailing, hlater⟩ := slots_spec s hcomments
    have hsorted := hcomments
    rw [← hsplit] at hsorted
    obtain ⟨blocks, closing, hblocks, hlines⟩ := ih (some s.keyword.category) hrest
      (hsorted.sublist ((List.sublist_append_right _ _).trans (List.sublist_append_right _ _)))
    have hbehind : ∀ c ∈ blocks.flatMap Block.comments ++ closing, s.line < c.line := by
      rw [hblocks.comments]
      exact hlater
    obtain ⟨hothers, hclosing⟩ := List.forall_mem_append.mp hbehind
    refine ⟨⟨(slots s comments).above, s, (slots s comments).trailing⟩ :: blocks, closing,
      ⟨?_, ?_, ?_, ?_, ?_, ?_⟩, ?_⟩
    · rw [List.map_cons, hblocks.program]
    · simp [Block.comments, hblocks.comments, hsplit]
    · exact List.forall_mem_cons.mpr ⟨habove, hblocks.above⟩
    · exact List.forall_mem_cons.mpr ⟨htrailing, hblocks.trailing⟩
    · refine .cons (fun b hb c hc => ?_) hblocks.ordered
      exact hothers c (List.mem_flatMap.mpr ⟨b, hb, hc⟩)
    · exact List.forall_mem_cons.mpr ⟨hclosing, hblocks.closing⟩
    · have hgap := gap_eq separate previous
        ⟨(slots s comments).above, s, (slots s comments).trailing⟩
      rw [layoutLines_cons, hlines, hgap, stackBlocks]
      simp [Block.layout]

/-! ## Blank lines -/

/-- Every blank line has a line directly below it that is not blank. -/
inductive Airy : List LayoutLine → Prop
  | nil : Airy []
  | line {line : LayoutLine} {lines : List LayoutLine} :
      line ≠ .blank → Airy lines → Airy (line :: lines)
  | gap {line : LayoutLine} {lines : List LayoutLine} :
      line ≠ .blank → Airy lines → Airy (.blank :: line :: lines)

namespace Airy

variable {lines : List LayoutLine}

theorem comments (h : Airy lines) (above : List Comment) :
    Airy (above.map .comment ++ lines) := by
  induction above with
  | nil => exact h
  | cons c above ih => exact .line (by simp) ih

theorem isChain (h : Airy lines) : lines.IsChain fun a b => ¬ (a = .blank ∧ b = .blank) := by
  induction h with
  | nil => exact .nil
  | line hne _ ih =>
    rw [List.isChain_cons]
    exact ⟨fun _ _ hboth => hne hboth.1, ih⟩
  | gap hne _ ih =>
    rw [List.isChain_cons_cons, List.isChain_cons]
    exact ⟨fun hboth => hne hboth.2, fun _ _ hboth => hne hboth.1, ih⟩

theorem getLast?_ne (h : Airy lines) : lines.getLast? ≠ some .blank := by
  induction h with
  | nil => simp
  | @line line lines hne _ ih =>
    cases lines with
    | nil => simpa using hne
    | cons => simpa using ih
  | @gap line lines hne _ ih =>
    cases lines with
    | nil => simpa using hne
    | cons => simpa using ih

end Airy

theorem airy_layoutLines (separate : Bool) (previous : Option Category) (program : Program)
    (comments : List Comment) : Airy (layoutLines separate previous program comments) := by
  induction program generalizing previous comments with
  | nil =>
    rw [layoutLines, ← List.append_nil (comments.map _)]
    exact Airy.nil.comments comments
  | cons s program ih =>
    have hcontinued := ih (some s.keyword.category) (slots s comments).later
    have hstatement : LayoutLine.statement s (slots s comments).trailing ≠ .blank := by simp
    rw [layoutLines_cons]
    rcases gap_eq_or separate previous s with hgap | hgap
    · rw [hgap]
      exact (Airy.line hstatement hcontinued).comments _
    · rw [hgap]
      cases (slots s comments).above with
      | nil => exact .gap hstatement hcontinued
      | cons c above => exact .gap (by simp) ((Airy.line hstatement hcontinued).comments above)

theorem head?_layoutLines_ne (separate : Bool) (program : Program) (comments : List Comment) :
    (layoutLines separate none program comments).head? ≠ some .blank := by
  cases program with
  | nil => cases comments <;> simp [layoutLines]
  | cons s program =>
    have hgap : (if separate then groupBreak none s else []) = [] := by simp [groupBreak]
    rw [layoutLines_cons, hgap]
    cases (slots s comments).above <;> simp

end ResourceDecl
