import ResourceDecl.Proofs.Documents.Outcomes

/-!
# Strict reading

The strict entry points give up where the recovering one goes on: `TokenStream.strict` if a lexeme
cannot be read, `Document.strict` if a line is no declaration. They succeed on the sources in which
the recovering one finds no problem, and what they report is a part of its problems.

* `filter_filterMap_or`: results of two kinds, item by item, are told apart again.
* `Document.filter_lexical`, `Document.filter_not_lexical`: so are the problems of a source.
* `strict_eq_ok_iff`, `strict_eq_error_iff`: when a strict entry point succeeds.
* `strict_agrees`: the result.
-/

namespace ResourceDecl

open Text

/-! ## Two kinds of problems -/

/-- If items give results of one kind first and of another kind else, the results of the one kind
are those that the items give first. -/
theorem filter_filterMap_or {α β : Type} {f g : α → Option β} {p : β → Bool} {items : List α}
    (hf : ∀ x ∈ items, ∀ a ∈ f x, p a) (hg : ∀ x ∈ items, ∀ b ∈ g x, p b = false) :
    (items.filterMap fun x => (f x).or (g x)).filter p = items.filterMap f := by
  rw [List.filter_filterMap]
  apply List.filterMap_congr
  intro x hx
  cases hfx : f x with
  | some a =>
    have ha := hf x hx a hfx
    simp [Option.filter, ha]
  | none =>
    cases hgx : g x with
    | none => rfl
    | some b =>
      have hb := hg x hx b hgx
      simp [Option.filter, hb]

/-- The kind of problem that the scanner finds. -/
def Problem.isLexical (problem : Problem) : Bool :=
  problem.cause.kind == .lexical

section Kinds

variable {line : SourceLine} {problem : Problem}

theorem SourceLine.isLexical_held (h : line.held.problem = some problem) : problem.isLexical := by
  obtain ⟨token, -, fault, offending, rfl⟩ := scanRest_problem_eq h
  rfl

theorem Run.isLexical_problem? {run : Run} (h : run.problem? = some problem) :
    problem.isLexical = false :=
  beq_eq_false_iff_ne.mpr (problem?_refuses h).not_lexical

end Kinds

namespace Document

variable (source : String)

/-- The lexical problems of a source are those of its tokens. -/
theorem filter_lexical :
    (ofSource source).problems.filter Problem.isLexical =
      (TokenStream.ofSource source).problems := by
  rw [problems_eq_filterMap, problems_scanned]
  apply filter_filterMap_or
  · intro line _ problem
    exact SourceLine.isLexical_held
  · intro line _ problem
    exact Run.isLexical_problem?

/-- The other problems of a source are those of its runs. -/
theorem filter_not_lexical :
    (ofSource source).problems.filter (fun problem => !problem.isLexical) =
      (ofTokens (TokenStream.ofSource source).tokens).problems := by
  -- no line has problems of both kinds, so it does not matter which of them is asked for first
  have hswap : (ofSource source).problems = (sourceLines source.toList).filterMap fun line =>
      (line.run (endToken source.toList)).problem?.or line.held.problem := by
    rw [problems_eq_filterMap]
    apply List.filterMap_congr
    intro line hm
    rw [SourceLine.problem?]
    rcases (line.one_outcome (endToken source.toList)).1 with h | h
    · rw [h, Option.none_or, Option.or_none]
    · rw [h, Option.none_or, Option.or_none]
  rw [hswap, problems_ofTokens_scanned]
  apply filter_filterMap_or
  · intro line _ problem h
    rw [Run.isLexical_problem? h]
    rfl
  · intro line _ problem h
    rw [SourceLine.isLexical_held h]
    rfl

end Document

/-! ## Strict entry points -/

section Refusal

variable {α : Type} {value : α} {problems : List Problem}

theorem strict_eq_ok_iff {result : α} :
    (if problems.isEmpty then .ok value else .error problems : Except (List Problem) α) =
      .ok result ↔ problems = [] ∧ result = value := by
  cases problems with
  | nil => simp [eq_comm]
  | cons problem problems => simp

theorem strict_eq_error_iff {reported : List Problem} :
    (if problems.isEmpty then .ok value else .error problems : Except (List Problem) α) =
      .error reported ↔ problems ≠ [] ∧ reported = problems := by
  cases problems with
  | nil => simp
  | cons problem problems => simp [eq_comm]

end Refusal

/-- The problems of a source have increasing starts. The strict entry points succeed exactly if
there are none, and with the same declarations. If the tokens are refused, the lexical problems are
reported; if they are not but the declarations are, all problems are. The other problems are those
of the tokens. -/
theorem strict_agrees (source : String) :
    ((Document.ofSource source).problems.Pairwise fun p q => p.span.start < q.span.start) ∧
      let stream := TokenStream.ofSource source
      let document := Document.ofSource source
      (∀ program, (∃ tokens, stream.strict = .ok tokens ∧
          (Document.ofTokens tokens).strict = .ok program) ↔
            document.problems = [] ∧ program = document.program) ∧
        (∀ problems, stream.strict = .error problems →
          problems = document.problems.filter Problem.isLexical) ∧
        (∀ tokens problems, stream.strict = .ok tokens →
          (Document.ofTokens tokens).strict = .error problems → problems = document.problems) ∧
        (document.problems.filter fun problem => !problem.isLexical) =
          (Document.ofTokens stream.tokens).problems := by
  refine ⟨(Document.pairwise_problem_places source).imp fun h => h.2, ?_⟩
  intro stream document
  have hsorted : document.problems =
      sortBy startsFirst (stream.problems ++ (Document.ofTokens stream.tokens).problems) := rfl
  simp only [TokenStream.strict, Document.strict, strict_eq_ok_iff, strict_eq_error_iff]
  refine ⟨fun program => ?_, ?_, ?_, Document.filter_not_lexical source⟩
  · rw [hsorted, sortBy_eq_nil_iff, List.append_eq_nil_iff]
    constructor
    · rintro ⟨_, ⟨hlexical, rfl⟩, hrefused, hprogram⟩
      exact ⟨⟨hlexical, hrefused⟩, hprogram⟩
    · rintro ⟨⟨hlexical, hrefused⟩, hprogram⟩
      exact ⟨_, ⟨hlexical, rfl⟩, hrefused, hprogram⟩
  · rintro _ ⟨-, rfl⟩
    exact (Document.filter_lexical source).symm
  · rintro _ _ ⟨hlexical, rfl⟩ ⟨-, rfl⟩
    have hnone := List.filter_eq_nil_iff.mp ((Document.filter_lexical source).trans hlexical)
    rw [← Document.filter_not_lexical source]
    exact List.filter_eq_self.mpr fun problem hm => by simpa using hnone problem hm

end ResourceDecl
