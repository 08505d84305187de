import ResourceDecl.Proofs.Documents.Respacing
import ResourceDecl.Proofs.Documents.Strictness
import ResourceDecl.Proofs.Grammar.Completion
import ResourceDecl.Proofs.Places.Coverage

/-!
# Refused lines

A line of a source without lexical problem is refused at the first token that no accepted line has
there. What `ofTokens_refusal` says of kinds of tokens is said here of texts of lines.

* `LineAccepted`: some line holds tokens of these kinds and is accepted.
* `Lexes.exists_front`: the text of the first tokens of a line, with anything behind it.
* `lineAccepted_of_lexes`, `LineAccepted.kindsDeclare`: whether a line is accepted is a matter of
  the kinds of its tokens.
* `TokenStream.onLine_eq`: the tokens of a line and the token that ends it.
* `refused_at_first_wrong_token`: the result.
-/

namespace ResourceDecl

open Text

/-! ## Lines that are accepted -/

/-- A line without line feed holds tokens of these kinds, and as a source it is accepted as one
declaration. -/
def LineAccepted (kinds : List TokenKind) : Prop :=
  ∃ text : String, '\n' ∉ text.toList ∧
    (TokenStream.ofSource text).tokens.map Token.kind = kinds ++ [.done] ∧
    ∃ s, (Document.ofSource text).strict = .ok [s]

theorem sourceLines_of_not_mem {text : List Char} (h : '\n' ∉ text) :
    sourceLines text = [⟨1, 0, text, true⟩] := by
  rw [sourceLines, pieces, List.splitOn_eq_singleton h]
  rfl

/-- What a source of one line holds and declares, and when nothing is wrong with it. -/
theorem ofSource_line {source : String} (h : '\n' ∉ source.toList) :
    let line : SourceLine := ⟨1, 0, source.toList, true⟩
    (TokenStream.ofSource source).tokens.map Token.kind =
        line.held.tokens.map Token.kind ++ [.done] ∧
      (Document.ofSource source).program = line.statement?.toList ∧
      ((Document.ofSource source).problems = [] ↔
        line.held.problem = none ∧ (line.held.tokens = [] ∨ line.statement? ≠ none)) := by
  intro line
  have hlines : sourceLines source.toList = [line] := sourceLines_of_not_mem h
  refine ⟨?_, ?_, ?_⟩
  · rw [TokenStream.tokens_ofSource, hlines, List.flatMap_singleton,
      SourceLine.scan_tokens_of_last rfl, List.map_append]
    rfl
  · rw [Document.program_ofSource, hlines]
    cases hs : line.statement? <;> simp [hs]
  · rw [Document.problems_ofSource_eq_nil_iff, hlines, List.forall_mem_singleton]

theorem LineAccepted.kindsDeclare {kinds : List TokenKind} (h : LineAccepted kinds) :
    KindsDeclare kinds := by
  obtain ⟨source, hline, hkinds, s, hstrict⟩ := h
  obtain ⟨htokens, hprogram, -⟩ := ofSource_line hline
  rw [← (strict_eq_ok_iff.mp hstrict).2] at hprogram
  have hs := Option.toList_eq_singleton_iff.mp hprogram.symm
  obtain ⟨opener, tokens, hheld, hderives, -⟩ := SourceLine.derives_of_statement? hs
  rw [htokens, hheld] at hkinds
  rw [← List.append_cancel_right hkinds, kindsDeclare_iff opener opener]
  exact ⟨s, ofTokens_eq_ok_iff.mpr hderives⟩

theorem lineAccepted_of_lexes {text : List Char} {kinds : List TokenKind} {comment : Option String}
    (hline : '\n' ∉ text) (hlexes : Lexes text kinds comment) (h : KindsDeclare kinds) :
    LineAccepted kinds := by
  obtain ⟨source, rfl⟩ : ∃ source : String, source.toList = text :=
    ⟨String.ofList text, String.toList_ofList⟩
  obtain ⟨hkinds, -, -, hproblem⟩ :=
    @SourceLine.holds_of_lexes ⟨1, 0, source.toList, true⟩ _ _ hlexes
  obtain ⟨htokens, hprogram, hproblems⟩ := ofSource_line hline
  have hread := SourceLine.ne_unreadable hproblem
  cases hheld : (SourceLine.held ⟨1, 0, source.toList, true⟩).tokens with
  | nil =>
    rw [hheld] at hkinds
    rw [← hkinds] at h
    exact absurd h id
  | cons opener tokens =>
    rw [hheld] at hkinds hread
    rw [← hkinds, kindsDeclare_iff opener opener] at h
    obtain ⟨s, hs⟩ := h
    have hstatement : SourceLine.statement? ⟨1, 0, source.toList, true⟩ = some s := by
      rw [SourceLine.statement?, SourceLine.run, hheld]
      exact (Run.statement?_cons_iff hread).mpr (ofTokens_eq_ok_iff.mp hs)
    refine ⟨source, hline, ?_, s, strict_eq_ok_iff.mpr ⟨?_, ?_⟩⟩
    · rw [htokens, hheld, hkinds]
    · exact hproblems.mpr ⟨hproblem, .inr (by simp [hstatement])⟩
    · rw [hprogram, hstatement]
      rfl

/-! ## The first tokens of a line -/

/-- The first tokens of a line have a text, and they are read from it whatever follows behind a
blank. -/
theorem Lexes.exists_front {rest : List Char} {kinds more : List TokenKind}
    {comment : Option String} (h : Lexes rest (kinds ++ more) comment) :
    ∃ front, front <+: rest ∧ ∀ {behind : List Char} {others : List TokenKind}
      {other : Option String}, EndsToken behind → Lexes behind others other →
        Lexes (front ++ behind) (kinds ++ others) other := by
  induction kinds generalizing rest with
  | nil => exact ⟨[], List.nil_prefix, fun _ hlexes => hlexes⟩
  | cons kind kinds ih =>
    cases h with
    | @token _ tail next first _ _ _ hs hc hr hnext =>
      obtain ⟨gap, rfl, hskip⟩ := exists_gap hs
      obtain ⟨part, rfl, -, hread⟩ := exists_part hs hr
      obtain ⟨front, ⟨behindFront, rfl⟩, hfront⟩ := ih hnext
      refine ⟨gap ++ first :: (part ++ front), ⟨behindFront, by simp⟩,
        fun {behind _ _} hends hlexes => ?_⟩
      have hlike : FollowsLike (front ++ behindFront) (front ++ behind) := by
        cases front with
        | nil => exact fun c hc => .inr (endsLexeme_of_isInlineBlank (hends c hc))
        | cons c front => exact followsLike_append (List.cons_ne_nil _ _) _ _
      exact hread (by simpa using hskip _) hlike (hfront hends hlexes)

/-- The first tokens of a line can stand in front of tokens that are written down. -/
theorem Lexes.lineAccepted {rest text : List Char} {kinds more others : List TokenKind}
    {comment : Option String} (hline : '\n' ∉ rest) (h : Lexes rest (kinds ++ more) comment)
    (hprints : Prints text others) (hdeclares : KindsDeclare (kinds ++ others)) :
    LineAccepted (kinds ++ others) := by
  obtain ⟨front, hbegins, hfront⟩ := h.exists_front
  have hends := hprints.endsToken endsToken_nil
  have hlexes := hprints.lexes endsToken_nil (.blank rfl)
  rw [List.append_nil] at hends hlexes
  refine lineAccepted_of_lexes (fun hm => ?_) (hfront hends hlexes) hdeclares
  rcases List.mem_append.mp hm with hm | hm
  · exact hline (hbegins.subset hm)
  · exact hprints.not_mem_newline hm

/-! ## The tokens of a line -/

namespace TokenStream

/-- The tokens on the line with this number. -/
def onLine (stream : TokenStream) (number : Nat) : List Token :=
  stream.tokens.filter fun token => token.line == number

theorem filter_scanned {source : String} {line : SourceLine}
    (hm : line ∈ sourceLines source.toList) :
    ((sourceLines source.toList).flatMap fun line => line.scan.tokens).filter
      (fun token => token.line == line.number) = line.scan.tokens := by
  have hnumber {other : SourceLine} (ho : other ∈ sourceLines source.toList) :
      ∀ token ∈ other.scan.tokens, token.line = other.number :=
    fun _ => SourceLine.line_of_mem_scan
  have hpairs := pairwise_number_sourceLines source.toList
  obtain ⟨front, behind, hlines⟩ := List.append_of_mem hm
  rw [hlines] at hnumber hpairs ⊢
  obtain ⟨-, hbehind, hfront⟩ := List.pairwise_append.mp hpairs
  have hnone {lines : List SourceLine} (hsub : lines ⊆ front ++ line :: behind)
      (hne : ∀ other ∈ lines, other.number ≠ line.number) :
      (lines.flatMap fun line => line.scan.tokens).filter
        (fun token => token.line == line.number) = [] := by
    rw [List.filter_eq_nil_iff]
    intro token ht
    obtain ⟨other, ho, ht⟩ := List.mem_flatMap.mp ht
    rw [hnumber (hsub ho) token ht]
    simpa using hne other ho
  have hself : line.scan.tokens.filter (fun token => token.line == line.number) =
      line.scan.tokens := by
    rw [List.filter_eq_self]
    intro token ht
    simpa using hnumber (by simp) token ht
  rw [List.flatMap_append, List.flatMap_cons, List.filter_append, List.filter_append, hself,
    hnone (List.subset_append_left _ _) fun other ho =>
      Nat.ne_of_lt (hfront other ho line List.mem_cons_self),
    hnone (fun other ho => by simp [ho]) fun other ho =>
      Nat.ne_of_gt ((List.pairwise_cons.mp hbehind).1 other ho),
    List.nil_append, List.append_nil]

/-- On a line with tokens there are its tokens and the token that ends it. -/
theorem onLine_eq {source : String} {line : SourceLine} (hm : line ∈ sourceLines source.toList)
    (hne : line.held.tokens ≠ []) :
    (ofSource source).onLine line.number =
      line.held.tokens ++ [(line.run (endToken source.toList)).terminator] := by
  rw [onLine, tokens_ofSource, List.filter_append, filter_scanned hm, SourceLine.run]
  cases hlast : line.isLast with
  | true =>
    obtain ⟨hend, -⟩ := SourceLine.endToken_of_last hm hlast
    simp [SourceLine.scan_tokens_of_last hlast, hend]
  | false =>
    obtain ⟨front, last, hlines, hl, -⟩ := sourceLines_eq_append source.toList
    have hlastm : last ∈ sourceLines source.toList := by simp [hlines]
    have hend : (endToken source.toList).line ≠ line.number := by
      intro hsame
      rw [(SourceLine.endToken_of_last hlastm hl).1] at hsame
      rw [Document.eq_of_number_eq hlastm hm hsame, hlast] at hl
      cases hl
    simp [SourceLine.scan_tokens hne hlast, hend]

end TokenStream

/-! ## Refused lines -/

/-- What is wrong with a line, if it is not lexical, is wrong with its tokens. -/
theorem Document.exists_line_of_mem_problems {source : String} {problem : Problem}
    (hm : problem ∈ (ofSource source).problems) (hkind : problem.cause.kind ≠ .lexical) :
    ∃ line ∈ sourceLines source.toList, line.number = problem.line ∧ line.held.problem = none ∧
      ∃ opener tokens, line.held.tokens = opener :: tokens ∧
        Statement.ofTokens opener tokens (line.run (endToken source.toList)).terminator =
          .error problem := by
  rw [problems_eq_filterMap, List.mem_filterMap] at hm
  obtain ⟨line, hline, hproblem⟩ := hm
  refine ⟨line, hline, (SourceLine.place_of_problem? hline hproblem).1.symm, ?_⟩
  rcases Option.or_eq_some_iff.mp hproblem with hlexical | ⟨hnone, hrefused⟩
  · obtain ⟨token, -, fault, offending, rfl⟩ := scanRest_problem_eq hlexical
    exact absurd rfl hkind
  · refine ⟨hnone, ?_⟩
    have hread := SourceLine.ne_unreadable hnone
    rw [SourceLine.run, Run.problem?_eq_some_iff] at hrefused
    cases htokens : line.held.tokens with
    | nil =>
      rw [htokens] at hrefused
      cases hrefused
    | cons opener tokens =>
      rw [htokens] at hrefused hread
      rw [Run.outcome?_cons hread] at hrefused
      exact ⟨opener, tokens, rfl, Option.some.inj hrefused⟩

/-- A line that is refused, though not for a lexical problem and not for want of a form, is refused
at the first token that no accepted line has there. The tokens in front of it begin an accepted
line, and no accepted line begins with them and that token; if it is the one that ends the line,
then the line is not accepted as it stands. -/
theorem refused_at_first_wrong_token {source : String} {problem : Problem}
    (hm : problem ∈ (Document.ofSource source).problems)
    (hkind : problem.cause.kind ≠ .lexical) (hform : ∀ k, problem.cause ≠ .unresolvedForm k) :
    ∃ before token after,
      (TokenStream.ofSource source).onLine problem.line = before ++ token :: after ∧
      token.span = problem.span ∧
      (∀ other ∈ (TokenStream.ofSource source).tokens,
        other.span = problem.span → other = token) ∧
      (∃ more, LineAccepted (before.map Token.kind ++ more)) ∧
      (token.kind.isTerminator → after = [] ∧ ¬ LineAccepted (before.map Token.kind)) ∧
      (¬ token.kind.isTerminator → ∀ more,
        ¬ LineAccepted (before.map Token.kind ++ token.kind :: more)) := by
  obtain ⟨line, hline, hnumber, hclean, opener, tokens, htokens, herror⟩ :=
    Document.exists_line_of_mem_problems hm hkind
  obtain ⟨before, rest, cause, hsplit, rfl, ⟨more, text, hprints, hdeclares⟩, hstop⟩ :=
    ofTokens_refusal herror hform
  have hfree := not_mem_of_mem_sourceLines hline
  have hheld : line.held.tokens = before ++ rest := htokens.trans hsplit
  have honLine := TokenStream.onLine_eq hline (htokens ▸ List.cons_ne_nil _ _)
  have haccepted : LineAccepted (before.map Token.kind ++ more) := by
    obtain ⟨kinds, comment, hlexes⟩ := SourceLine.exists_lexes hclean
    have hkinds := (SourceLine.holds_of_lexes hlexes).kinds_eq
    rw [← hkinds, hheld, List.map_append] at hlexes
    exact hlexes.lineAccepted hfree hprints hdeclares
  have hrefused {others : List TokenKind} (hsame : others.head? = (rest.map Token.kind).head?) :
      ¬ LineAccepted (before.map Token.kind ++ others) :=
    fun haccepted => hstop others hsame haccepted.kindsDeclare
  have hunique {token : Token} {after : List Token}
      (htoken : (TokenStream.ofSource source).onLine line.number = before ++ token :: after) :
      ∀ other ∈ (TokenStream.ofSource source).tokens, other.span = token.span → other = token := by
    have hmem : token ∈ (TokenStream.ofSource source).onLine line.number := by simp [htoken]
    exact fun other ho h =>
      TokenStream.start_inj ho (List.mem_of_mem_filter hmem) (congrArg Span.start h)
  rw [hheld] at honLine
  rw [← hnumber]
  cases rest with
  | nil =>
    rw [List.append_nil] at honLine
    refine ⟨before, _, [], honLine, rfl, hunique honLine, ⟨more, haccepted⟩, fun _ => ⟨rfl, ?_⟩,
      fun hnot => ?_⟩
    · have hnothing : ¬ LineAccepted (before.map Token.kind ++ []) := hrefused rfl
      rwa [List.append_nil] at hnothing
    · refine absurd ?_ hnot
      rw [SourceLine.run]
      split <;> rfl
  | cons token rest =>
    rw [List.append_assoc, List.cons_append] at honLine
    refine ⟨before, token, _, honLine, rfl, hunique honLine, ⟨more, haccepted⟩, fun hends => ?_,
      fun _ others => hrefused rfl⟩
    have hkinds := scanRest_tokens line.number false line.start 1 line.text token
      (show token ∈ line.held.tokens by simp [hheld])
    obtain ⟨hnewline, hdone⟩ := TokenKind.not_terminator hkinds.1
    simp [TokenKind.isTerminator, hnewline, hdone] at hends

/-- A sprite without height on the last line is refused at the end of the source, and the line could
have gone on. -/
theorem refused_at_first_wrong_token_sprite :
    let source := "PALETTE p \"a\"\nSPRITE s \"a\" 4"
    let problem : Problem := ⟨.missingField .sprite ⟨.height, .size⟩ .done, ⟨28, 28⟩, 2, 15⟩
    problem ∈ (Document.ofSource source).problems ∧
      ∃ before token after,
        (TokenStream.ofSource source).onLine 2 = before ++ token :: after ∧
        token.span = ⟨28, 28⟩ ∧
        (∃ more, LineAccepted (before.map Token.kind ++ more)) ∧
        (token.kind.isTerminator → after = [] ∧ ¬ LineAccepted (before.map Token.kind)) := by
  intro source problem
  have hm : problem ∈ (Document.ofSource source).problems := by decide +kernel
  obtain ⟨before, token, after, hline, hspan, -, hmore, hends, -⟩ :=
    refused_at_first_wrong_token hm nofun nofun
  exact ⟨hm, before, token, after, hline, hspan, hmore, hends⟩

end ResourceDecl
