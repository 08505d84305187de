import ResourceDecl.Layout
import ResourceDecl.Proofs.Documents.Rows

/-!
# Arrangements

The lines of a layout are a merge of the declarations and the comments by the lines they come from,
with blank lines in between.

* `Arranges`: the merge as a relation, without the loop that makes it.
* `slots_spec`: how a declaration parts the comments.
* `arranges_layoutLines`: the loop makes the merge.
* `Arranges.compare_places`: two lines stand in the layout as their declarations and comments stand
  in the source.
-/

namespace ResourceDecl

namespace LayoutLine

def statement? : LayoutLine → Option Statement
  | statement s _ => some s
  | _ => none

def comment? : LayoutLine → Option Comment
  | comment c => some c
  | statement _ trailing => trailing
  | blank => none

/-- The line of the source that a line of the layout stems from; a blank line stems from none. -/
def source? : LayoutLine → Option Nat
  | blank => none
  | comment c => some c.line
  | statement s _ => some s.line

end LayoutLine

/-- These lines merge the program and the comments by the lines of the source. -/
inductive Arranges : Program → List Comment → List LayoutLine → Prop
  | nil : Arranges [] [] []
  | blank {program : Program} {comments : List Comment} {lines : List LayoutLine} :
      Arranges program comments lines → Arranges program comments (.blank :: lines)
  | comment {c : Comment} {program : Program} {comments : List Comment}
      {lines : List LayoutLine} :
      (∀ s ∈ program, c.line < s.line) → (∀ d ∈ comments, c.line < d.line) →
        Arranges program comments lines → Arranges program (c :: comments) (.comment c :: lines)
  | statement {s : Statement} {trailing : Option Comment} {program : Program}
      {comments : List Comment} {lines : List LayoutLine} :
      (∀ c ∈ trailing, c.line = s.line) →
        (∀ t ∈ program, s.line < t.line) → (∀ c ∈ comments, s.line < c.line) →
        Arranges program comments lines →
          Arranges (s :: program) (trailing.toList ++ comments) (.statement s trailing :: lines)

/-! ## Comments around a declaration -/

/-- Comments as a declaration parts them: those above it, the one on its line, the later ones. -/
structure Slots where
  above : List Comment
  trailing : Option Comment
  later : List Comment

def slots (s : Statement) (comments : List Comment) : Slots :=
  let above := comments.takeWhile fun c => decide (c.line < s.line)
  match comments.dropWhile fun c => decide (c.line < s.line) with
  | [] => ⟨above, none, []⟩
  | c :: later => if c.line = s.line then ⟨above, some c, later⟩ else ⟨above, none, c :: later⟩

theorem layoutLines_cons (separate : Bool) (previous : Option Category) (s : Statement)
    (program : Program) (comments : List Comment) :
    layoutLines separate previous (s :: program) comments =
      (if separate then groupBreak previous s else []) ++
        ((slots s comments).above.map .comment ++
          .statement s (slots s comments).trailing ::
            layoutLines separate (some s.keyword.category) program (slots s comments).later) := by
  rw [layoutLines, slots, List.append_assoc]
  cases comments.dropWhile fun c => decide (c.line < s.line) with
  | nil => rfl
  | cons c later =>
    by_cases hline : c.line = s.line
    · simp [hline]
    · simp [hline]

theorem slots_append (s : Statement) (comments : List Comment) :
    (slots s comments).above ++ ((slots s comments).trailing.toList ++ (slots s comments).later) =
      comments := by
  have hsplit := List.takeWhile_append_dropWhile (p := fun c => decide (c.line < s.line))
    (l := comments)
  rw [slots]
  split
  · next hdrop => rwa [hdrop] at hsplit
  · next c later hdrop =>
    rw [hdrop] at hsplit
    split <;> exact hsplit

theorem slots_spec (s : Statement) {comments : List Comment}
    (hsorted : comments.Pairwise fun c d => c.line < d.line) :
    (slots s comments).above ++ ((slots s comments).trailing.toList ++ (slots s comments).later) =
        comments ∧
      (∀ c ∈ (slots s comments).above, c.line < s.line) ∧
      (∀ c ∈ (slots s comments).trailing, c.line = s.line) ∧
      ∀ c ∈ (slots s comments).later, s.line < c.line := by
  refine ⟨slots_append s comments, ?_⟩
  have habove : ∀ c ∈ comments.takeWhile fun c => decide (c.line < s.line), c.line < s.line := by
    intro c hc
    simpa using List.mem_takeWhile_imp hc
  have hpending := hsorted.sublist (List.dropWhile_sublist fun c => decide (c.line < s.line))
  have hfirst := List.head?_dropWhile_not (fun c => decide (c.line < s.line)) comments
  rw [slots]
  split
  · exact ⟨habove, by simp, by simp⟩
  · next c later hdrop =>
    rw [hdrop] at hpending hfirst
    have hlater := (List.pairwise_cons.mp hpending).1
    have hnot : s.line ≤ c.line := by simpa using hfirst
    split
    · next hline =>
      refine ⟨habove, by simpa using hline, ?_⟩
      intro d hd
      rw [← hline]
      exact hlater d hd
    · next hline =>
      refine ⟨habove, by simp, ?_⟩
      intro d hd
      rcases List.mem_cons.mp hd with rfl | hd
      · omega
      · have := hlater d hd
        omega

/-! ## The loop -/

namespace Arranges

variable {program : Program} {comments : List Comment} {lines : List LayoutLine}

theorem append_comments (above : List Comment)
    (habove : ∀ c ∈ above, ∀ s ∈ program, c.line < s.line)
    (hsorted : (above ++ comments).Pairwise fun c d => c.line < d.line)
    (h : Arranges program comments lines) :
    Arranges program (above ++ comments) (above.map .comment ++ lines) := by
  induction above with
  | nil => exact h
  | cons c above ih =>
    obtain ⟨hc, hrest⟩ := List.pairwise_cons.mp hsorted
    obtain ⟨hfirst, hothers⟩ := List.forall_mem_cons.mp habove
    exact .comment hfirst hc (ih hothers hrest)

theorem append_gap (separate : Bool) (previous : Option Category) (s : Statement)
    (h : Arranges program comments lines) :
    Arranges program comments ((if separate then groupBreak previous s else []) ++ lines) := by
  cases separate with
  | false => exact h
  | true =>
    rw [if_pos rfl]
    unfold groupBreak
    split
    · split
      · exact h
      · exact h.blank
    · exact h

end Arranges

theorem arranges_layoutLines (separate : Bool) (previous : Option Category) {program : Program}
    {comments : List Comment} (hprogram : program.Pairwise fun s t => s.line < t.line)
    (hcomments : comments.Pairwise fun c d => c.line < d.line) :
    Arranges program comments (layoutLines separate previous program comments) := by
  induction program generalizing previous comments with
  | nil =>
    have hall := Arranges.nil.append_comments comments (by simp) (by simpa using hcomments)
    rwa [List.append_nil, List.append_nil] at hall
  | cons s program ih =>
    obtain ⟨hs, hrest⟩ := List.pairwise_cons.mp hprogram
    obtain ⟨hsplit, habove, htrailing, hlater⟩ := slots_spec s hcomments
    have hsorted := hcomments
    rw [← hsplit] at hsorted
    have hcontinued := ih (some s.keyword.category) hrest
      (hsorted.sublist ((List.sublist_append_right _ _).trans (List.sublist_append_right _ _)))
    have hbefore : ∀ c ∈ (slots s comments).above, ∀ t ∈ s :: program, c.line < t.line := by
      intro c hc t ht
      rcases List.mem_cons.mp ht with rfl | ht
      · exact habove c hc
      · exact (habove c hc).trans (hs t ht)
    have hline := Arranges.statement htrailing hs hlater hcontinued
    have hwhole := hline.append_comments _ hbefore hsorted
    rw [hsplit] at hwhole
    rw [layoutLines_cons]
    exact hwhole.append_gap separate previous s

/-! ## What stands in the lines -/

namespace Arranges

variable {program : Program} {comments : List Comment} {lines : List LayoutLine}

theorem filterMap_statement? (h : Arranges program comments lines) :
    lines.filterMap LayoutLine.statement? = program := by
  induction h with
  | nil => rfl
  | blank _ ih => exact ih
  | comment _ _ _ ih => exact ih
  | @statement s _ _ _ _ _ _ _ _ ih => exact congrArg (s :: ·) ih

theorem filterMap_comment? (h : Arranges program comments lines) :
    lines.filterMap LayoutLine.comment? = comments := by
  induction h with
  | nil => rfl
  | blank _ ih => exact ih
  | @comment c _ _ _ _ _ _ ih => exact congrArg (c :: ·) ih
  | @statement s trailing _ _ _ _ _ _ _ ih =>
    cases trailing with
    | none => exact ih
    | some c => exact congrArg (c :: ·) ih

theorem mem_program (h : Arranges program comments lines) {line : LayoutLine} (hm : line ∈ lines)
    {s : Statement} (hs : line.statement? = some s) : s ∈ program := by
  rw [← h.filterMap_statement?]
  exact List.mem_filterMap.mpr ⟨line, hm, hs⟩

theorem mem_comments (h : Arranges program comments lines) {line : LayoutLine} (hm : line ∈ lines)
    {c : Comment} (hc : line.comment? = some c) : c ∈ comments := by
  rw [← h.filterMap_comment?]
  exact List.mem_filterMap.mpr ⟨line, hm, hc⟩

theorem source?_eq_of_comment? (h : Arranges program comments lines) {line : LayoutLine}
    (hm : line ∈ lines) {c : Comment} (hc : line.comment? = some c) :
    line.source? = some c.line := by
  induction h with
  | nil => cases hm
  | blank _ ih =>
    rcases List.mem_cons.mp hm with rfl | hm
    · cases hc
    · exact ih hm
  | comment _ _ _ ih =>
    rcases List.mem_cons.mp hm with rfl | hm
    · cases hc
      rfl
    · exact ih hm
  | statement htrailing _ _ _ ih =>
    rcases List.mem_cons.mp hm with rfl | hm
    · exact congrArg some (htrailing c hc).symm
    · exact ih hm

theorem source?_eq_of_statement? {line : LayoutLine} {s : Statement}
    (hs : line.statement? = some s) : line.source? = some s.line := by
  cases line with
  | blank => cases hs
  | comment => cases hs
  | statement =>
    cases hs
    rfl

/-- Nothing stands in front of a bound that the program and the comments stand behind. -/
theorem source?_lt (h : Arranges program comments lines) {bound : Nat}
    (hprogram : ∀ s ∈ program, bound < s.line) (hcomments : ∀ c ∈ comments, bound < c.line)
    {line : LayoutLine} (hm : line ∈ lines) {x : Nat} (hx : line.source? = some x) : bound < x := by
  cases line with
  | blank => cases hx
  | comment c =>
    cases hx
    exact hcomments c (h.mem_comments hm rfl)
  | statement s trailing =>
    cases hx
    exact hprogram s (h.mem_program hm rfl)

theorem pairwise_source? (h : Arranges program comments lines) :
    lines.Pairwise fun a b => ∀ x ∈ a.source?, ∀ y ∈ b.source?, x < y := by
  induction h with
  | nil => exact .nil
  | blank _ ih => exact .cons (by simp [LayoutLine.source?]) ih
  | comment hprogram hcomments h ih =>
    refine .cons ?_ ih
    intro b hb x hx y hy
    cases hx
    exact h.source?_lt hprogram hcomments hb hy
  | statement _ hprogram hcomments h ih =>
    refine .cons ?_ ih
    intro b hb x hx y hy
    cases hx
    exact h.source?_lt hprogram hcomments hb hy

theorem eq_of_source? (h : Arranges program comments lines) {a b : LayoutLine} (ha : a ∈ lines)
    (hb : b ∈ lines) {x : Nat} (hx : a.source? = some x) (hy : b.source? = some x) : a = b := by
  have hforward : lines.Pairwise fun a b => a.source? = some x → b.source? = some x → a = b := by
    apply h.pairwise_source?.imp
    intro a b hlt ha hb
    exact absurd (hlt x ha x hb) (Nat.lt_irrefl x)
  have hbackward : lines.Pairwise
      (flip fun a b => a.source? = some x → b.source? = some x → a = b) := by
    apply hforward.imp
    intro a b heq hb ha
    exact (heq ha hb).symm
  exact hforward.forall_of_forall_of_flip (fun _ _ _ _ => rfl) hbackward ha hb hx hy

/-- Lines of the layout stand in it as in the source. -/
theorem compare_places (h : Arranges program comments lines) {a b : LayoutLine} {p q x y : Nat}
    (ha : (a, p) ∈ lines.zipIdx 1) (hb : (b, q) ∈ lines.zipIdx 1) (hx : a.source? = some x)
    (hy : b.source? = some y) : (x < y ↔ p < q) ∧ (x = y ↔ p = q) := by
  have hbefore := List.pairwise_iff_getElem.mp h.pairwise_source?
  obtain ⟨hp, ha⟩ := List.mk_mem_zipIdx_iff_le_and_getElem?_sub.mp ha
  obtain ⟨hq, hb⟩ := List.mk_mem_zipIdx_iff_le_and_getElem?_sub.mp hb
  obtain ⟨hi, ha⟩ := List.getElem?_eq_some_iff.mp ha
  obtain ⟨hj, hb⟩ := List.getElem?_eq_some_iff.mp hb
  have hlt : p < q → x < y := by
    intro hlt
    exact hbefore _ _ hi hj (by omega) x (ha ▸ hx) y (hb ▸ hy)
  have hgt : q < p → y < x := by
    intro hgt
    exact hbefore _ _ hj hi (by omega) y (hb ▸ hy) x (ha ▸ hx)
  have heq : p = q → x = y := by
    rintro rfl
    rw [← ha, hb, hy] at hx
    exact (Option.some.inj hx).symm
  -- One of the three holds of `p` and `q`, and only one can hold of `x` and `y`.
  omega

/-- A comment shares its line of the layout with a declaration exactly if it does so in the
source. -/
theorem isSome_statement? (h : Arranges program comments lines) {line : LayoutLine}
    (hm : line ∈ lines) {c : Comment} (hc : line.comment? = some c) :
    line.statement?.isSome ↔ ∃ s ∈ program, s.line = c.line := by
  constructor
  · intro hsome
    obtain ⟨s, hs⟩ := Option.isSome_iff_exists.mp hsome
    refine ⟨s, h.mem_program hm hs, ?_⟩
    have hline := h.source?_eq_of_comment? hm hc
    rw [source?_eq_of_statement? hs] at hline
    exact Option.some.inj hline
  · rintro ⟨s, hs, hline⟩
    rw [← h.filterMap_statement?] at hs
    obtain ⟨other, hother, hs⟩ := List.mem_filterMap.mp hs
    have hsource := source?_eq_of_statement? hs
    rw [hline] at hsource
    obtain rfl := h.eq_of_source? hm hother (h.source?_eq_of_comment? hm hc) hsource
    exact Option.isSome_of_eq_some hs

end Arranges

end ResourceDecl
