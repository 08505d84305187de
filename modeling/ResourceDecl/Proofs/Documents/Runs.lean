import Mathlib.Data.List.TakeWhile
import ResourceDecl.Proofs.Grammar.LineReaders

/-!
# Runs of tokens

A run is the tokens of a line and the token that ends it. How a list of tokens is cut into runs, and
what a run gives.

* `runs`: the runs of a list of tokens.
* `cutRuns_line`, `cutRuns_last`: a newline ends a run, the end of the list ends the last one.
* `runs_append_done`: everything up to the end of the input is cut.
* `statement?_eq_some_iff`, `problem?_eq_some_iff`: a run gives a declaration or a problem only if
  all its tokens were readable.
* `Run.gives`: a run with tokens that were all readable gives exactly one of the two.
-/

namespace ResourceDecl

/-! ## Runs -/

/-- The tokens of a line and the token that ends it. -/
structure Run where
  tokens : List Token
  terminator : Token
deriving DecidableEq, Inhabited

namespace Run

/-- The declaration of a run or what is wrong with it; nothing for a run without tokens and for
one that holds an unreadable token. -/
def outcome? (run : Run) : Option (Except Problem Statement) :=
  match run.tokens with
  | [] => none
  | opener :: rest =>
    if run.tokens.any fun token => token.kind == .unreadable then none
    else some (Statement.ofTokens opener rest run.terminator)

/-- The declaration of a run. -/
def statement? (run : Run) : Option Statement :=
  match run.outcome? with
  | some (.ok statement) => some statement
  | _ => none

/-- What is wrong with a run. -/
def problem? (run : Run) : Option Problem :=
  match run.outcome? with
  | some (.error problem) => some problem
  | _ => none

end Run

/-- Cut tokens at their newlines; `final` ends the last run. -/
def cutRuns (final : Token) (tokens : List Token) : List Run :=
  let line := tokens.takeWhile fun token => token.kind != .newline
  match _h : tokens.dropWhile fun token => token.kind != .newline with
  | [] => [⟨line, final⟩]
  | newline :: rest => ⟨line, newline⟩ :: cutRuns final rest
termination_by tokens.length
decreasing_by
  have h := length_dropWhile_le (fun token : Token => token.kind != .newline) tokens
  rw [_h, List.length_cons] at h
  exact h

/-- The runs of a list of tokens; what stands behind the end of the input is ignored. -/
def runs (tokens : List Token) : List Run :=
  let live := tokens.takeWhile fun token => token.kind != .done
  let final := (tokens.find? fun token => token.kind == .done).getD (impliedEnd tokens)
  cutRuns final live

/-! ## Cutting -/

theorem cutRuns_line (final : Token) {line : List Token} {newline : Token}
    (hline : ∀ token ∈ line, token.kind ≠ .newline) (hnewline : newline.kind = .newline)
    (rest : List Token) :
    cutRuns final (line ++ newline :: rest) = ⟨line, newline⟩ :: cutRuns final rest := by
  have hall : ∀ token ∈ line, (token.kind != .newline) = true :=
    fun token ht => bne_iff_ne.mpr (hline token ht)
  have htake : (line ++ newline :: rest).takeWhile (fun token => token.kind != .newline) =
      line := by
    rw [List.takeWhile_append_of_pos hall]
    simp [hnewline]
  have hdrop : (line ++ newline :: rest).dropWhile (fun token => token.kind != .newline) =
      newline :: rest := by
    rw [List.dropWhile_append_of_pos hall]
    simp [hnewline]
  rw [cutRuns, htake]
  split
  · rename_i heq
    rw [hdrop] at heq
    cases heq
  · rename_i heq
    rw [hdrop] at heq
    cases heq
    rfl

theorem cutRuns_last (final : Token) {line : List Token}
    (hline : ∀ token ∈ line, token.kind ≠ .newline) : cutRuns final line = [⟨line, final⟩] := by
  have hall : ∀ token ∈ line, (token.kind != .newline) = true :=
    fun token ht => bne_iff_ne.mpr (hline token ht)
  have hdrop := List.dropWhile_eq_nil_iff.mpr hall
  rw [cutRuns, List.takeWhile_eq_self_iff.mpr hall]
  split
  · rfl
  · rename_i heq
    rw [hdrop] at heq
    cases heq

/-- Tokens in front of the end of the input are cut, tokens behind it are not looked at. -/
theorem runs_append_done {tokens : List Token} {done : Token}
    (htokens : ∀ token ∈ tokens, token.kind ≠ .done) (hdone : done.kind = .done)
    (rest : List Token) : runs (tokens ++ done :: rest) = cutRuns done tokens := by
  have hall : ∀ token ∈ tokens, (token.kind != .done) = true :=
    fun token ht => bne_iff_ne.mpr (htokens token ht)
  have htake : (tokens ++ done :: rest).takeWhile (fun token => token.kind != .done) = tokens := by
    rw [List.takeWhile_append_of_pos hall]
    simp [hdone]
  have hfind : (tokens ++ done :: rest).find? (fun token => token.kind == .done) = some done := by
    rw [List.find?_append, List.find?_eq_none.mpr (by simpa using htokens)]
    simp [hdone]
  rw [runs, htake, hfind]
  rfl

/-- Without a token for the end of the input all tokens are cut. -/
theorem runs_of_no_done {tokens : List Token} (htokens : ∀ token ∈ tokens, token.kind ≠ .done) :
    runs tokens = cutRuns (impliedEnd tokens) tokens := by
  have hall : ∀ token ∈ tokens, (token.kind != .done) = true :=
    fun token ht => bne_iff_ne.mpr (htokens token ht)
  rw [runs, List.takeWhile_eq_self_iff.mpr hall, List.find?_eq_none.mpr (by simpa using htokens)]
  rfl

/-! ## What a run gives -/

namespace Run

theorem outcome?_cons {opener terminator : Token} {tokens : List Token}
    (h : ∀ token ∈ opener :: tokens, token.kind ≠ .unreadable) :
    outcome? ⟨opener :: tokens, terminator⟩ =
      some (Statement.ofTokens opener tokens terminator) := by
  have hany : ((opener :: tokens).any fun token => token.kind == .unreadable) = false := by
    simpa using h
  rw [outcome?, hany]
  rfl

theorem outcome?_eq_none_of_mem {tokens : List Token} {terminator token : Token}
    (hm : token ∈ tokens) (hk : token.kind = .unreadable) :
    outcome? ⟨tokens, terminator⟩ = none := by
  cases tokens with
  | nil => cases hm
  | cons opener rest =>
    have hany : ((opener :: rest).any fun token => token.kind == .unreadable) = true :=
      List.any_eq_true.mpr ⟨token, hm, by simp [hk]⟩
    rw [outcome?, hany]
    rfl

theorem statement?_eq_some_iff {run : Run} {s : Statement} :
    run.statement? = some s ↔ run.outcome? = some (.ok s) := by
  rw [statement?]
  split <;> simp_all

theorem problem?_eq_some_iff {run : Run} {p : Problem} :
    run.problem? = some p ↔ run.outcome? = some (.error p) := by
  rw [problem?]
  split <;> simp_all

@[simp] theorem statement?_nil (terminator : Token) : statement? ⟨[], terminator⟩ = none := rfl

@[simp] theorem problem?_nil (terminator : Token) : problem? ⟨[], terminator⟩ = none := rfl

/-- What tokens give: nothing if there are none or one of them could not be read, and else either a
declaration or a problem. -/
inductive Gives : List Token → Option Statement → Option Problem → Prop
  | empty : Gives [] none none
  | unreadable {tokens : List Token} {token : Token} :
      token ∈ tokens → token.kind = .unreadable → Gives tokens none none
  | declaration {tokens : List Token} (s : Statement) :
      tokens ≠ [] → (∀ token ∈ tokens, token.kind ≠ .unreadable) → Gives tokens (some s) none
  | refusal {tokens : List Token} (problem : Problem) :
      tokens ≠ [] → (∀ token ∈ tokens, token.kind ≠ .unreadable) →
        Gives tokens none (some problem)

theorem gives (run : Run) : Gives run.tokens run.statement? run.problem? := by
  obtain ⟨tokens, terminator⟩ := run
  cases tokens with
  | nil => exact .empty
  | cons opener tokens =>
    by_cases hfault : ∃ token ∈ opener :: tokens, token.kind = .unreadable
    · obtain ⟨token, hm, hk⟩ := hfault
      rw [statement?, problem?, outcome?_eq_none_of_mem hm hk]
      exact .unreadable hm hk
    · have hread : ∀ token ∈ opener :: tokens, token.kind ≠ .unreadable :=
        fun token hm hk => hfault ⟨token, hm, hk⟩
      rw [statement?, problem?, outcome?_cons hread]
      cases Statement.ofTokens opener tokens terminator with
      | ok s => exact .declaration s (List.cons_ne_nil _ _) hread
      | error problem => exact .refusal problem (List.cons_ne_nil _ _) hread

end Run

/-! ## One line -/

/-- A line with its terminator is one run; behind a newline an empty run follows. -/
theorem filterMap_runs_line {α : Type} {f : Run → Option α} {line : List Token}
    {terminator : Token} (hnil : ∀ terminator, f ⟨[], terminator⟩ = none)
    (hline : ∀ token ∈ line, token.kind ≠ .newline ∧ token.kind ≠ .done)
    (hterminator : terminator.kind = .newline ∨ terminator.kind = .done) :
    (runs (line ++ [terminator])).filterMap f = (f ⟨line, terminator⟩).toList := by
  have hruns : ∃ final, runs (line ++ [terminator]) = [⟨line, terminator⟩] ∨
      runs (line ++ [terminator]) = [⟨line, terminator⟩, ⟨[], final⟩] := by
    rcases hterminator with hk | hk
    · refine ⟨impliedEnd (line ++ [terminator]), .inr ?_⟩
      rw [runs_of_no_done (by simpa [hk, or_imp, forall_and] using fun t ht => (hline t ht).2),
        cutRuns_line _ (fun token ht => (hline token ht).1) hk, cutRuns_last _ (by simp)]
    · refine ⟨terminator, .inl ?_⟩
      rw [runs_append_done (fun token ht => (hline token ht).2) hk,
        cutRuns_last _ fun token ht => (hline token ht).1]
  obtain ⟨final, h | h⟩ := hruns <;> rw [h] <;> cases hf : f ⟨line, terminator⟩ <;>
    simp [hf, hnil]

end ResourceDecl
