import ResourceDecl.Proofs.Tokens.ScannedLines
import ResourceDecl.Proofs.Tokens.Spelling

/-!
# Lines without faults

`Lexes` says what the rest of a line holds, without offsets and columns: the kinds of its tokens
and the text of its comment. A line that `Lexes` is scanned to just that (`scanRest_of_lexes`), and
every other line has a problem, an unreadable token and no comment (`scanRest_cases`).

`Prints` is a text of spellings with blanks in front of each of them. Printed declarations have
that form, and a line is free to go on behind them (`Prints.lexes`).
-/

namespace ResourceDecl

open Text

/-! ## What a line holds -/

/-- The rest of a line holds tokens of these kinds, then this comment if there is one, and nothing
that cannot be read. -/
inductive Lexes : List Char → List TokenKind → Option String → Prop
  | blank {rest : List Char} : skipBlanks rest = [] → Lexes rest [] none
  | comment {rest tail : List Char} {first : Char} :
      skipBlanks rest = first :: tail → opensComment first tail →
        Lexes rest [] (some (String.ofList (trimEnd (first :: tail))))
  | token {rest tail next : List Char} {first : Char} {kind : TokenKind}
      {kinds : List TokenKind} {comment : Option String} :
      skipBlanks rest = first :: tail → ¬ opensComment first tail →
        readLexeme first tail = (.ok kind, next) → Lexes next kinds comment →
        Lexes rest (kind :: kinds) comment

/-- The scanned line holds tokens of these kinds and this comment, and nothing is wrong with it;
`seen` when a token stands in front of it. -/
structure ScannedLine.Holds (scanned : ScannedLine) (line : Nat) (seen : Bool)
    (kinds : List TokenKind) (comment : Option String) : Prop where
  kinds_eq : scanned.tokens.map Token.kind = kinds
  line_eq : ∀ token ∈ scanned.tokens, token.line = line
  comment_eq : (scanned.comment.map fun c => (c.text, c.line, c.trailing)) =
    comment.map fun text => (text, line, seen || !kinds.isEmpty)
  no_problem : scanned.problem = none

/-! ## Scanning a line -/

theorem scanRest_of_lexes {rest : List Char} {kinds : List TokenKind} {comment : Option String}
    (h : Lexes rest kinds comment) (line : Nat) (seen : Bool) (start column : Nat) :
    (scanRest line seen start column rest).Holds line seen kinds comment := by
  induction h generalizing seen start column with
  | blank hs =>
    rw [scanRest_blank hs]
    exact ⟨rfl, by simp, rfl, rfl⟩
  | comment hs hc =>
    rw [scanRest_comment hs hc]
    exact ⟨rfl, by simp, by simp, rfl⟩
  | token hs hc hr _ ih =>
    rw [scanRest_token hs hc hr]
    obtain ⟨hkinds, hline, hcomment, hproblem⟩ := ih true _ _
    refine ⟨?_, ?_, ?_, hproblem⟩
    · simp only [List.map_cons, hkinds]
    · exact List.forall_mem_cons.mpr ⟨rfl, hline⟩
    · simpa using hcomment

/-- A line either holds what it says, or something in it cannot be read. -/
theorem scanRest_cases (line : Nat) (seen : Bool) (start column : Nat) (rest : List Char) :
    (∃ kinds comment, Lexes rest kinds comment) ∨
      (scanRest line seen start column rest).problem ≠ none ∧
        (scanRest line seen start column rest).comment = none ∧
        ∃ token ∈ (scanRest line seen start column rest).tokens, token.kind = .unreadable := by
  induction seen, start, column, rest using scanRest.induct line with
  | case1 _ _ _ _ hs => exact .inl ⟨_, _, .blank hs⟩
  | case2 _ _ _ _ _ _ hs hc => exact .inl ⟨_, _, .comment hs hc⟩
  | case3 seen start column rest gap _ _ first tail hs hc kind next hr text stop ih =>
    rw [scanRest_token hs hc hr]
    rcases ih with ⟨kinds, comment, hlexes⟩ | ⟨hproblem, hcomment, token, hm, hk⟩
    · exact .inl ⟨_, _, .token hs hc hr hlexes⟩
    · exact .inr ⟨hproblem, hcomment, token, List.mem_cons_of_mem _ hm, hk⟩
  | case4 _ _ _ _ _ _ hs hc _ _ hr =>
    rw [scanRest_fault hs hc hr]
    exact .inr ⟨by simp, rfl, _, List.mem_cons_self, rfl⟩

/-! ## Printed tokens -/

/-- Spellings of tokens, each behind at least one blank. -/
inductive Prints : List Char → List TokenKind → Prop
  | nil : Prints [] []
  | cons {gap word text : List Char} {kind : TokenKind} {kinds : List TokenKind} :
      gap ≠ [] → (∀ c ∈ gap, isInlineBlank c) → Spells word kind → Prints text kinds →
        Prints (gap ++ (word ++ text)) (kind :: kinds)

theorem skipBlanks_append {gap : List Char} (h : ∀ c ∈ gap, isInlineBlank c) (rest : List Char) :
    skipBlanks (gap ++ rest) = skipBlanks rest :=
  List.dropWhile_append_of_pos h

theorem Prints.endsToken {text : List Char} {kinds : List TokenKind} (h : Prints text kinds)
    {rest : List Char} (hrest : EndsToken rest) : EndsToken (text ++ rest) := by
  cases h with
  | nil => exact hrest
  | @cons gap _ _ _ _ hne hgap =>
    cases gap with
    | nil => exact absurd rfl hne
    | cons c gap => exact endsToken_cons.mpr (hgap c List.mem_cons_self)

theorem Prints.not_mem_newline {text : List Char} {kinds : List TokenKind}
    (h : Prints text kinds) : '\n' ∉ text := by
  induction h with
  | nil => exact List.not_mem_nil
  | cons _ hgap hword _ ih =>
    intro hm
    rcases List.mem_append.mp hm with hm | hm
    · exact absurd (hgap _ hm) (by decide)
    · rcases List.mem_append.mp hm with hm | hm
      · exact hword.1 hm
      · exact ih hm

theorem Spells.lexes {word rest : List Char} {kind : TokenKind} {kinds : List TokenKind}
    {comment : Option String} (h : Spells word kind) (hends : EndsToken rest)
    (hrest : Lexes rest kinds comment) : Lexes (word ++ rest) (kind :: kinds) comment := by
  obtain ⟨-, first, tail, rfl, hblank, hread⟩ := h
  obtain ⟨hcomment, hlexeme⟩ := hread rest hends
  exact .token (skipBlanks_cons hblank _) (by simp [hcomment]) hlexeme hrest

theorem Lexes.gap {gap rest : List Char} {kinds : List TokenKind} {comment : Option String}
    (hgap : ∀ c ∈ gap, isInlineBlank c) (h : Lexes rest kinds comment) :
    Lexes (gap ++ rest) kinds comment := by
  have hskip := skipBlanks_append hgap rest
  cases h with
  | blank hs => exact .blank (hskip.trans hs)
  | comment hs hc => exact .comment (hskip.trans hs) hc
  | token hs hc hr hl => exact .token (hskip.trans hs) hc hr hl

/-- A line goes on behind printed tokens. -/
theorem Prints.lexes {text : List Char} {kinds : List TokenKind} (h : Prints text kinds)
    {rest : List Char} {comment : Option String} (hends : EndsToken rest)
    (hrest : Lexes rest [] comment) : Lexes (text ++ rest) kinds comment := by
  induction h with
  | nil => exact hrest
  | cons _ hgap hword htext ih =>
    rw [List.append_assoc, List.append_assoc]
    exact .gap hgap (hword.lexes (htext.endsToken hends) ih)

end ResourceDecl
