import Mathlib.Data.List.Forall2
import ResourceDecl.Proofs.Documents.Outcomes
import ResourceDecl.Proofs.Layout.NormalForm
import ResourceDecl.Proofs.Places.Relocation

/-!
# Sources that say the same

Two sources say the same if their lines hold tokens of the same kinds: places within a line and
comments do not matter to declarations and problems.

* `Relocation.toLine`: everything is moved to the beginning of its line.
* `SourceLine.Alike`: lines that hold the same, each without a fault.
* `SourceLine.Alike.statement?_rel`, `SourceLine.Alike.problem?_rel`: what such lines give.
* `SameMeaning`, `sameMeaning_of_alike`: the same of sources.
* `format_of_alike`: if the comments are the same as well, such sources are formatted alike.
-/

namespace ResourceDecl

open Text

/-! ## Places within a line -/

/-- Everything at the beginning of its line. -/
def Relocation.toLine : Relocation where
  offset _ := 0
  line n := n
  column _ := 0
  monotone := monotone_const

theorem map_moved_toLine {tokens : List Token} {line : Nat}
    (h : ∀ token ∈ tokens, token.line = line) :
    tokens.map (Token.moved .toLine) =
      (tokens.map Token.kind).map fun kind => ⟨kind, ⟨0, 0⟩, line, 0⟩ := by
  rw [List.map_map]
  apply List.map_congr_left
  intro token hm
  rw [← h token hm]
  rfl

/-- Declarations are alike and on the same line if they differ in places within a line only. -/
theorem Statement.sameShape_of_moved {s t : Statement} (h : s.moved .toLine = t.moved .toLine) :
    s.SameShape t ∧ s.line = t.line := by
  obtain ⟨hkeyword, hform, hfields, hline, -⟩ := Statement.mk.inj h
  have hcontent (u : Statement) :
      u.content = (u.fields.map (Field.moved .toLine)).map fun f => (f.name, f.value) := by
    rw [List.map_map]
    rfl
  refine ⟨⟨hkeyword, hform, ?_⟩, hline⟩
  rw [hcontent, hcontent, hfields]

/-- Problems that differ in places within a line only are worded alike. -/
theorem Problem.diagnostic_of_moved {p q : Problem} (h : p.moved .toLine = q.moved .toLine) :
    q.diagnostic = { p.diagnostic with span := q.span, column := q.column } := by
  obtain ⟨hcause, -, hline, -⟩ := Problem.mk.inj h
  have hline : p.line = q.line := hline
  rw [diagnostic, diagnostic, hcause, hline]

theorem rel_of_map_eq {α β : Type} {R : α → α → Prop} {f : α → β} {x y : Option α}
    (h : x.map f = y.map f) (hR : ∀ a b, f a = f b → R a b) : Option.Rel R x y := by
  cases x with
  | none =>
    rw [Option.map_eq_none_iff.mp h.symm]
    exact .none
  | some a =>
    obtain ⟨b, rfl, hb⟩ := Option.map_eq_some_iff.mp h.symm
    exact .some (hR a b hb.symm)

/-! ## Lines -/

namespace SourceLine

theorem exists_lexes {line : SourceLine} (h : line.held.problem = none) :
    ∃ kinds comment, Lexes line.text kinds comment :=
  (scanRest_cases line.number false line.start 1 line.text).resolve_right fun hfault => hfault.1 h

/-- The lines hold tokens of the same kinds, and the second one has no comment unless the first one
has one. Nothing is wrong with either of them. -/
structure Alike (a b : SourceLine) : Prop where
  number : a.number = b.number
  isLast : a.isLast = b.isLast
  lexes : ∃ kinds comment other, Lexes a.text kinds comment ∧ Lexes b.text kinds other ∧
    (comment = none → other = none)

variable {a b : SourceLine} {text other : List Char}

theorem Alike.no_problem (h : a.Alike b) : a.held.problem = none ∧ b.held.problem = none := by
  obtain ⟨-, -, _, _, _, hlexes, hothers, -⟩ := h
  exact ⟨(holds_of_lexes hlexes).no_problem, (holds_of_lexes hothers).no_problem⟩

/-- The runs of such lines differ in places within a line only. -/
theorem Alike.moved_run (h : a.Alike b) (ha : a ∈ sourceLines text) (hb : b ∈ sourceLines other) :
    (a.run (endToken text)).moved .toLine = (b.run (endToken other)).moved .toLine := by
  obtain ⟨hnumber, hlast, kinds, _, _, hlexes, hothers, -⟩ := h
  have hends {line : SourceLine} {text : List Char} (hm : line ∈ sourceLines text) :
      ((line.run (endToken text)).terminator).moved .toLine =
        ⟨if line.isLast then .done else .newline, ⟨0, 0⟩, line.number, 0⟩ := by
    rw [run]
    cases hlast : line.isLast with
    | true =>
      rw [if_pos rfl, if_pos rfl, ← (endToken_of_last hm hlast).1]
      rfl
    | false => rfl
  obtain ⟨hkinds, hline, -, -⟩ := holds_of_lexes hlexes
  obtain ⟨hotherKinds, hotherLine, -, -⟩ := holds_of_lexes hothers
  have htokens : a.held.tokens.map (Token.moved .toLine) =
      b.held.tokens.map (Token.moved .toLine) := by
    rw [map_moved_toLine hline, map_moved_toLine hotherLine, hkinds, hotherKinds, hnumber]
  rw [Run.moved, Run.moved, hends ha, hends hb, hnumber, hlast]
  exact congrArg (Run.mk · _) htokens

/-- The declarations of such lines differ in places only. -/
theorem Alike.statement?_rel (h : a.Alike b) (ha : a ∈ sourceLines text)
    (hb : b ∈ sourceLines other) :
    Option.Rel (fun s t => s.SameShape t ∧ s.line = t.line) a.statement? b.statement? := by
  have hmoved := congrArg Run.statement? (h.moved_run ha hb)
  rw [Run.statement?_moved, Run.statement?_moved, statement?_run, statement?_run] at hmoved
  exact rel_of_map_eq hmoved fun _ _ => Statement.sameShape_of_moved

/-- The problems of such lines are worded alike. -/
theorem Alike.problem?_rel (h : a.Alike b) (ha : a ∈ sourceLines text)
    (hb : b ∈ sourceLines other) :
    Option.Rel (fun p q : Problem =>
        q.diagnostic = { p.diagnostic with span := q.span, column := q.column })
      (a.problem? (endToken text)) (b.problem? (endToken other)) := by
  have hmoved := congrArg Run.problem? (h.moved_run ha hb)
  rw [Run.problem?_moved, Run.problem?_moved] at hmoved
  rw [problem?, problem?, h.no_problem.1, h.no_problem.2]
  exact rel_of_map_eq hmoved fun _ _ => Problem.diagnostic_of_moved

/-- A comment of the second line stands on the same line as one of the first line. -/
theorem Alike.comment (h : a.Alike b) :
    b.held.comment = none ∨ ∃ c d, a.held.comment = some c ∧ b.held.comment = some d ∧
      d.line = c.line ∧ d.trailing = c.trailing := by
  obtain ⟨hnumber, -, kinds, comment, other, hlexes, hothers, hnone⟩ := h
  have hfirst := (holds_of_lexes hlexes).comment_eq
  have hsecond := (holds_of_lexes hothers).comment_eq
  cases other with
  | none => exact .inl (Option.map_eq_none_iff.mp hsecond)
  | some text =>
    obtain ⟨kept, rfl⟩ : ∃ kept, comment = some kept :=
      Option.ne_none_iff_exists'.mp fun heq => by cases hnone heq
    obtain ⟨c, hc, hcomment⟩ := Option.map_eq_some_iff.mp hfirst
    obtain ⟨d, hd, hother⟩ := Option.map_eq_some_iff.mp hsecond
    simp only [Prod.mk.injEq] at hcomment hother
    refine .inr ⟨c, d, hc, hd, ?_, ?_⟩
    · rw [hother.2.1, hcomment.2.1, hnumber]
    · rw [hother.2.2, hcomment.2.2]

end SourceLine

/-! ## Sources -/

theorem forall₂_mem {α β : Type} {R : α → β → Prop} {as : List α} {bs : List β}
    (h : List.Forall₂ R as bs) : List.Forall₂ (fun a b => a ∈ as ∧ b ∈ bs ∧ R a b) as bs := by
  refine List.forall₂_iff_zip.mpr ⟨h.length_eq, fun hm => ?_⟩
  obtain ⟨ha, hb⟩ := List.of_mem_zip hm
  exact ⟨ha, hb, List.forall₂_zip h hm⟩

theorem forall₂_text_iff {cs ds : List Comment} :
    List.Forall₂ (fun c d : Comment => c.text = d.text) cs ds ↔
      cs.map Comment.text = ds.map Comment.text := by
  rw [← List.forall₂_eq_eq_eq, List.forall₂_map_left_iff, List.forall₂_map_right_iff]

/-- Neither source has a lexical problem, their declarations are alike and on the same lines, and
their problems are worded alike. -/
structure SameMeaning (source other : String) : Prop where
  lexical : (TokenStream.ofSource source).problems = []
  other_lexical : (TokenStream.ofSource other).problems = []
  program : List.Forall₂ (fun s t => s.SameShape t ∧ s.line = t.line)
    (Document.ofSource source).program (Document.ofSource other).program
  problems : List.Forall₂ (fun p q : Problem =>
      q.diagnostic = { p.diagnostic with span := q.span, column := q.column })
    (Document.ofSource source).problems (Document.ofSource other).problems

section Sources

variable {source other : String}
  (h : List.Forall₂ SourceLine.Alike (sourceLines source.toList) (sourceLines other.toList))

include h

theorem sameMeaning_of_alike : SameMeaning source other := by
  have hlines := forall₂_mem h
  have hclean := (List.forall₂_and_left _ _).mp (h.imp fun _ _ hab => ⟨hab.no_problem.1, hab⟩)
  have hothers := (List.forall₂_and_left _ _).mp (h.flip.imp fun _ _ hab => ⟨hab.no_problem.2, hab⟩)
  refine ⟨?_, ?_, ?_, ?_⟩
  · rw [Document.problems_scanned]
    exact List.filterMap_eq_nil_iff.mpr hclean.1
  · rw [Document.problems_scanned]
    exact List.filterMap_eq_nil_iff.mpr hothers.1
  · rw [Document.program_ofSource, Document.program_ofSource]
    exact List.rel_filterMap (fun _ _ ⟨ha, hb, hab⟩ => hab.statement?_rel ha hb) hlines
  · rw [Document.problems_eq_filterMap, Document.problems_eq_filterMap]
    exact List.rel_filterMap (fun _ _ ⟨ha, hb, hab⟩ => hab.problem?_rel ha hb) hlines

/-- The comments of the second source stand on the lines of some of the first one. -/
theorem sublist_comments_of_alike :
    List.SublistForall₂ (fun d c : Comment => d.line = c.line ∧ d.trailing = c.trailing)
      (Document.ofSource other).comments (Document.ofSource source).comments := by
  rw [Document.comments_ofSource, Document.comments_ofSource]
  generalize sourceLines source.toList = lines at h ⊢
  generalize sourceLines other.toList = others at h ⊢
  induction h with
  | nil => exact .nil
  | @cons a b lines others hab _ ih =>
    rw [List.filterMap_cons, List.filterMap_cons]
    rcases hab.comment with hnone | ⟨c, d, hc, hd, hplace⟩
    · rw [hnone]
      cases a.held.comment with
      | none => exact ih
      | some c => exact .cons_right ih
    · rw [hc, hd]
      exact .cons hplace ih

/-- If no comment is lost, the sources have the same layout. -/
theorem sameLayout_of_alike
    (htexts : (Document.ofSource other).comments.map Comment.text =
      (Document.ofSource source).comments.map Comment.text) :
    (Document.ofSource source).SameLayout (Document.ofSource other) := by
  have hprogram := (sameMeaning_of_alike h).program
  obtain ⟨kept, hkept, hsub⟩ := List.sublistForall₂_iff.mp (sublist_comments_of_alike h)
  have hlength := congrArg List.length htexts
  rw [List.length_map, List.length_map, hkept.length_eq] at hlength
  obtain rfl := hsub.eq_of_length hlength
  have hplaces := hkept.flip
  have hequal := forall₂_text_iff.mpr htexts.symm
  refine ⟨hprogram.imp fun _ _ hs => hs.1, ?_, fun s hs c hc => ?_⟩
  · refine List.forall₂_iff_zip.mpr ⟨hequal.length_eq, fun hm => ⟨List.forall₂_zip hequal hm, ?_⟩⟩
    exact (List.forall₂_zip hplaces hm).2.symm
  · have hstatement : s.1.line = s.2.line := (List.forall₂_zip hprogram hs).2
    have hcomment : c.2.line = c.1.line := (List.forall₂_zip hplaces hc).1
    rw [hstatement, hcomment]
    exact ⟨Iff.rfl, Iff.rfl⟩

/-- If nothing is wrong with the first source and no comment is lost, both are formatted alike. -/
theorem format_of_alike
    (htexts : (Document.ofSource other).comments.map Comment.text =
      (Document.ofSource source).comments.map Comment.text)
    (hproblems : (Document.ofSource source).problems = []) (config : LayoutConfig) :
    format config other = format config source := by
  have hclean : (Document.ofSource other).problems = [] := by
    have hlength := (sameMeaning_of_alike h).problems.length_eq
    rw [hproblems, List.length_nil] at hlength
    exact List.length_eq_zero_iff.mp hlength.symm
  exact format_of_sameLayout hproblems hclean (sameLayout_of_alike h htexts) config

end Sources

end ResourceDecl
