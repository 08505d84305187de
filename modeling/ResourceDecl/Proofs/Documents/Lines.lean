import ResourceDecl.Proofs.Documents.Simulation
import ResourceDecl.Proofs.Grammar.Greed
import ResourceDecl.Proofs.Tokens.LineFeeds

/-!
# Documents line by line

No line of a source knows of another, and a document is put together from what its lines give.

* `filterMap_runs_source`: a run for each line, in order.
* `Document.program_ofSource`, `Document.comments_ofSource`,
  `Document.problems_ofSource_eq_nil_iff`: declarations, comments and problems line by line.
-/

namespace ResourceDecl

open Text

/-! ## What a line gives -/

namespace SourceLine

/-- The run of the line; `final` ends the last one. -/
def run (final : Token) (line : SourceLine) : Run :=
  ⟨line.held.tokens, if line.isLast then final else line.newline⟩

/-- The declaration of the line. -/
def statement? (line : SourceLine) : Option Statement :=
  (line.run line.newline).statement?

end SourceLine

/-- Tokens of a line were read, or stand for what could not be read. -/
theorem scanRest_tokens (line : Nat) (seen : Bool) (start column : Nat) (rest : List Char) :
    ∀ token ∈ (scanRest line seen start column rest).tokens,
      (token.kind.Lexed ∨ token.kind = .unreadable) ∧ token.line = line := by
  induction seen, start, column, rest using scanRest.induct line with
  | case1 _ _ _ _ hs =>
    rw [scanRest_blank hs]
    simp
  | case2 _ _ _ _ _ _ hs hc =>
    rw [scanRest_comment hs hc]
    simp
  | case3 seen start column rest gap _ _ first tail hs hc kind next hr text stop ih =>
    rw [scanRest_token hs hc hr]
    exact List.forall_mem_cons.mpr ⟨⟨.inl (readLexeme_lexed hr), rfl⟩, ih⟩
  | case4 _ _ _ _ _ _ hs hc _ _ hr =>
    rw [scanRest_fault hs hc hr]
    simp

theorem SourceLine.line_of_mem_scan {line : SourceLine} {token : Token}
    (hm : token ∈ line.scan.tokens) : token.line = line.number := by
  rcases mem_held_or_eq hm with hheld | rfl
  · exact (scanRest_tokens _ _ _ _ _ token hheld).2
  · rfl

theorem TokenKind.not_terminator {kind : TokenKind} (h : kind.Lexed ∨ kind = .unreadable) :
    kind ≠ .newline ∧ kind ≠ .done := by
  rcases h with h | rfl
  · constructor
    · rintro rfl
      exact h
    · rintro rfl
      exact h
  · decide

/-! ## Runs of a source -/

namespace Run

theorem statement?_cons_iff {opener terminator : Token} {tokens : List Token}
    (h : ∀ token ∈ opener :: tokens, token.kind ≠ .unreadable) {s : Statement} :
    statement? ⟨opener :: tokens, terminator⟩ = some s ↔ s.Derives opener tokens := by
  rw [statement?_eq_some_iff, outcome?_cons h, Option.some_inj, ofTokens_eq_ok_iff]

theorem problem?_cons_iff {opener terminator : Token} {tokens : List Token}
    (h : ∀ token ∈ opener :: tokens, token.kind ≠ .unreadable) :
    problem? ⟨opener :: tokens, terminator⟩ = none ↔ ∃ s : Statement, s.Derives opener tokens := by
  rw [problem?, outcome?_cons h]
  cases hs : Statement.ofTokens opener tokens terminator with
  | ok s =>
    have hderives := ofTokens_eq_ok_iff.mp hs
    simp only [true_iff]
    exact ⟨s, hderives⟩
  | error problem =>
    simp only [reduceCtorEq, false_iff]
    rintro ⟨s, hderives⟩
    rw [ofTokens_eq_ok_iff.mpr hderives] at hs
    cases hs

/-- What ends a line does not matter to its declaration. -/
theorem statement?_terminator (tokens : List Token) (a b : Token) :
    statement? ⟨tokens, a⟩ = statement? ⟨tokens, b⟩ := by
  cases tokens with
  | nil => rfl
  | cons opener tokens =>
    by_cases h : ∀ token ∈ opener :: tokens, token.kind ≠ .unreadable
    · ext s
      rw [statement?_cons_iff h, statement?_cons_iff h]
    · obtain ⟨token, hm, hk⟩ : ∃ token ∈ opener :: tokens, token.kind = .unreadable := by
        by_contra hnone
        exact h fun token hm hk => hnone ⟨token, hm, hk⟩
      rw [statement?, statement?, outcome?_eq_none_of_mem hm hk, outcome?_eq_none_of_mem hm hk]

end Run

theorem SourceLine.statement?_run (line : SourceLine) (final : Token) :
    (line.run final).statement? = line.statement? :=
  Run.statement?_terminator _ _ _

theorem SourceLine.ne_unreadable {line : SourceLine} (h : line.held.problem = none) :
    ∀ token ∈ line.held.tokens, token.kind ≠ .unreadable := by
  rcases scanRest_cases line.number false line.start 1 line.text with
    ⟨kinds, comment, hlexes⟩ | ⟨hfault, -⟩
  · have hlexed := hlexes.lexed
    have hkinds := (scanRest_of_lexes hlexes line.number false line.start 1).kinds_eq
    intro token ht hk
    have hnot := hlexed token.kind (hkinds ▸ List.mem_map_of_mem ht)
    rw [hk] at hnot
    exact hnot
  · exact absurd h hfault

/-- A line that can be read has a problem if it has tokens and is no declaration. -/
theorem SourceLine.problem?_run_eq_none_iff (line : SourceLine)
    (h : line.held.problem = none) (final : Token) :
    (line.run final).problem? = none ↔ line.held.tokens = [] ∨ line.statement? ≠ none := by
  have hread := ne_unreadable h
  rw [run, statement?, run]
  cases htokens : line.held.tokens with
  | nil => simp
  | cons opener tokens =>
    rw [htokens] at hread
    rw [Run.problem?_cons_iff hread, Option.ne_none_iff_exists']
    simp only [Run.statement?_cons_iff hread, reduceCtorEq, false_or]

theorem filterMap_runs_numberLines {α : Type} {f : Run → Option α} {final : Token}
    (hnil : ∀ terminator, f ⟨[], terminator⟩ = none) (number start : Nat)
    {texts : List (List Char)} (hne : texts ≠ []) :
    (cutRuns final ((numberLines number start texts).flatMap
        fun line => line.scan.tokens)).filterMap f =
      (numberLines number start texts).filterMap fun line => f (line.run final) := by
  have hkinds (line : SourceLine) : ∀ token ∈ line.held.tokens, token.kind ≠ .newline :=
    fun token hm => (TokenKind.not_terminator (scanRest_tokens _ _ _ _ _ token hm).1).1
  fun_induction numberLines number start texts with
  | case1 => exact absurd rfl hne
  | case2 number start text =>
    rw [List.flatMap_singleton, SourceLine.scan_tokens_of_last rfl,
      cutRuns_last final (hkinds ⟨number, start, text, true⟩)]
    rfl
  | case3 number start text rest hrest ih =>
    have ih := ih (by simpa using hrest)
    rw [List.flatMap_cons, List.filterMap_cons, ← ih]
    by_cases hempty : (SourceLine.held ⟨number, start, text, false⟩).tokens = []
    · rw [SourceLine.scan_tokens_of_nil hempty, SourceLine.run, hempty, hnil]
      rfl
    · rw [SourceLine.scan_tokens hempty rfl, List.append_assoc, List.singleton_append,
        cutRuns_line final (hkinds ⟨number, start, text, false⟩) rfl, List.filterMap_cons]
      rfl

theorem TokenStream.tokens_ofSource (source : String) :
    (ofSource source).tokens =
      ((sourceLines source.toList).flatMap fun line => line.scan.tokens) ++
        [endToken source.toList] := by
  rw [ofSource_eq_lines]

theorem TokenStream.mem_tokens_iff {source : String} {token : Token} :
    token ∈ (ofSource source).tokens ↔
      (∃ line ∈ sourceLines source.toList, token ∈ line.scan.tokens) ∨
        token = endToken source.toList := by
  rw [tokens_ofSource, List.mem_append, List.mem_flatMap, List.mem_singleton]

theorem TokenStream.scan_subset {source : String} {line : SourceLine}
    (h : line ∈ sourceLines source.toList) : line.scan.tokens ⊆ (ofSource source).tokens :=
  fun _ hm => mem_tokens_iff.mpr (.inl ⟨line, h, hm⟩)

/-- No line of a source holds the token for its end. -/
theorem ne_done_of_mem_lines {text : List Char} :
    ∀ token ∈ (sourceLines text).flatMap fun line => line.scan.tokens, token.kind ≠ .done := by
  intro token hm
  obtain ⟨line, hline, hm⟩ := List.mem_flatMap.mp hm
  rcases SourceLine.mem_held_or_eq hm with hheld | rfl
  · have hkind := scanRest_tokens _ _ _ _ _ token hheld
    exact (TokenKind.not_terminator hkind.1).2
  · nofun

/-- The runs of a source are those of its lines. -/
theorem filterMap_runs_source {α : Type} {f : Run → Option α}
    (hnil : ∀ terminator, f ⟨[], terminator⟩ = none) (source : String) :
    (runs (TokenStream.ofSource source).tokens).filterMap f =
      (sourceLines source.toList).filterMap fun line => f (line.run (endToken source.toList)) := by
  rw [TokenStream.tokens_ofSource, runs_append_done ne_done_of_mem_lines rfl, sourceLines]
  exact filterMap_runs_numberLines hnil 1 0 (pieces_ne_nil _)

/-! ## Documents -/

namespace Document

theorem program_ofSource (source : String) :
    (ofSource source).program = (sourceLines source.toList).filterMap SourceLine.statement? := by
  have hruns := filterMap_runs_source Run.statement?_nil source
  simp only [SourceLine.statement?_run] at hruns
  rw [← hruns, ofSource, ofTokens_eq_runs]

theorem comments_ofSource (source : String) :
    (ofSource source).comments =
      (sourceLines source.toList).filterMap fun line => line.held.comment := by
  show (TokenStream.ofSource source).comments = _
  rw [TokenStream.ofSource_eq_lines]

/-- What the scanner finds wrong with a source, line by line. -/
theorem problems_scanned (source : String) :
    (TokenStream.ofSource source).problems =
      (sourceLines source.toList).filterMap fun line => line.held.problem := by
  rw [TokenStream.ofSource_eq_lines]

/-- What is wrong with the tokens of a source, line by line. -/
theorem problems_ofTokens_scanned (source : String) :
    (ofTokens (TokenStream.ofSource source).tokens).problems =
      (sourceLines source.toList).filterMap fun line =>
        (line.run (endToken source.toList)).problem? := by
  rw [ofTokens_eq_runs]
  exact filterMap_runs_source Run.problem?_nil source

theorem problems_ofSource (source : String) :
    (ofSource source).problems = sortBy startsFirst
      (((sourceLines source.toList).filterMap fun line => line.held.problem) ++
        (sourceLines source.toList).filterMap fun line =>
          (line.run (endToken source.toList)).problem?) := by
  rw [← problems_scanned, ← problems_ofTokens_scanned]
  rfl

/-- A source has no problem if none of its lines has one. -/
theorem problems_ofSource_eq_nil_iff (source : String) :
    (ofSource source).problems = [] ↔ ∀ line ∈ sourceLines source.toList,
      line.held.problem = none ∧ (line.held.tokens = [] ∨ line.statement? ≠ none) := by
  rw [problems_ofSource, sortBy_eq_nil_iff, List.append_eq_nil_iff, List.filterMap_eq_nil_iff,
    List.filterMap_eq_nil_iff]
  constructor
  · rintro ⟨hlexical, hgrammatical⟩ line hm
    have hiff := line.problem?_run_eq_none_iff (hlexical line hm)
    exact ⟨hlexical line hm, (hiff _).mp (hgrammatical line hm)⟩
  · intro h
    refine ⟨fun line hm => (h line hm).1, fun line hm => ?_⟩
    have hiff := line.problem?_run_eq_none_iff (h line hm).1
    exact (hiff _).mpr (h line hm).2

end Document

end ResourceDecl
