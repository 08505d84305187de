import ResourceDecl.Proofs.Documents.Rows
import ResourceDecl.Proofs.Places.Located
import ResourceDecl.Proofs.Statements.Problems

/-!
# One outcome for each line

Lexical problems come from the scanner and the other ones from the tokens, and all of them are
sorted by their places. What comes out is the list of what is wrong with each line, in the order of
the lines.

* `sortBy_filterMap`: lists over the same lines are sorted line by line.
* `SourceLine.problem?`, `SourceLine.place_of_problem?`: what is wrong with a line, and where.
* `Document.problems_eq_filterMap`: the problems of a source, line by line.
* `Document.pairwise_problem_places`: their lines and their starts increase.
* `one_outcome_for_each_line`: a line with tokens gives exactly one declaration or problem, and
  every other line gives nothing.
-/

namespace ResourceDecl

open Text

/-! ## Merging -/

section Merging

variable {α β : Type} {le : β → β → Bool}

/-- Two lists over the same items, of which every item gives to one at most and earlier items give
what ranks first, are merged item by item. -/
theorem mergeBy_filterMap {f g : α → Option β} {items : List α}
    (hone : ∀ x ∈ items, f x = none ∨ g x = none)
    (horder : items.Pairwise fun x y =>
      ∀ a ∈ (f x).or (g x), ∀ b ∈ (f y).or (g y), le a b ∧ ¬ le b a) :
    mergeBy le (items.filterMap f) (items.filterMap g) =
      items.filterMap fun x => (f x).or (g x) := by
  induction items with
  | nil => simp [mergeBy]
  | cons x items ih =>
    obtain ⟨hx, hone⟩ := List.forall_mem_cons.mp hone
    obtain ⟨hfirst, horder⟩ := List.pairwise_cons.mp horder
    have ih := ih hone horder
    have hf {a : β} (ha : a ∈ items.filterMap f) : ∃ y ∈ items, a ∈ (f y).or (g y) := by
      obtain ⟨y, hy, ha⟩ := List.mem_filterMap.mp ha
      exact ⟨y, hy, by simp [ha]⟩
    have hg {b : β} (hb : b ∈ items.filterMap g) : ∃ y ∈ items, b ∈ (f y).or (g y) := by
      obtain ⟨y, hy, hb⟩ := List.mem_filterMap.mp hb
      have hnone : f y = none := (hone y hy).resolve_right (by simp [hb])
      exact ⟨y, hy, by simp [hnone, hb]⟩
    rw [List.filterMap_cons, List.filterMap_cons, List.filterMap_cons, ← ih]
    cases hfx : f x with
    | some a =>
      have hgx : g x = none := hx.resolve_left (by simp [hfx])
      rw [hfx, Option.some_or] at hfirst
      simp only [hgx, Option.some_or]
      apply mergeBy_cons_left
      intro b hb
      obtain ⟨y, hy, hb⟩ := hg hb
      exact (hfirst y hy a rfl b hb).1
    | none =>
      rw [hfx, Option.none_or] at hfirst
      cases hgx : g x with
      | none => simp
      | some b =>
        rw [hgx] at hfirst
        simp only [Option.none_or]
        apply mergeBy_cons_right
        intro a ha
        obtain ⟨y, hy, ha⟩ := hf ha
        exact (hfirst y hy b rfl a ha).2

/-- Such lists, one behind the other, are sorted item by item. -/
theorem sortBy_filterMap (htrans : ∀ a b c, le a b → le b c → le a c) {f g : α → Option β}
    {items : List α} (hone : ∀ x ∈ items, f x = none ∨ g x = none)
    (horder : items.Pairwise fun x y =>
      ∀ a ∈ (f x).or (g x), ∀ b ∈ (f y).or (g y), le a b ∧ ¬ le b a) :
    sortBy le (items.filterMap f ++ items.filterMap g) =
      items.filterMap fun x => (f x).or (g x) := by
  have hfirst {x : α} {a : β} (ha : f x = some a) : a ∈ (f x).or (g x) := by simp [ha]
  have hsecond {x : α} (hx : x ∈ items) {a : β} (ha : g x = some a) : a ∈ (f x).or (g x) := by
    simp [(hone x hx).resolve_right (by simp [ha]), ha]
  have hf : (items.filterMap f).Pairwise fun a b => le a b :=
    List.pairwise_filterMap.mpr <| horder.imp fun hxy a ha b hb =>
      (hxy a (hfirst ha) b (hfirst hb)).1
  have hg : (items.filterMap g).Pairwise fun a b => le a b :=
    List.pairwise_filterMap.mpr <| horder.imp_of_mem fun hx hy hxy a ha b hb =>
      (hxy a (hsecond hx ha) b (hsecond hy hb)).1
  rw [sortBy_append htrans hf hg, mergeBy_filterMap hone horder]

end Merging

/-! ## What is wrong with a line -/

/-- What the scanner finds wrong is lexical, and it arises at a token. -/
theorem scanRest_problem_eq {line : Nat} {seen : Bool} {start column : Nat} {rest : List Char}
    {problem : Problem} (h : (scanRest line seen start column rest).problem = some problem) :
    ∃ token ∈ (scanRest line seen start column rest).tokens, ∃ fault offending,
      problem = token.problem (.lexical fault offending) := by
  induction seen, start, column, rest using scanRest.induct line with
  | case1 _ _ _ _ hs =>
    rw [scanRest_blank hs] at h
    cases h
  | case2 _ _ _ _ _ _ hs hc =>
    rw [scanRest_comment hs hc] at h
    cases h
  | case3 seen start column rest gap _ _ first tail hs hc kind next hr text stop ih =>
    rw [scanRest_token hs hc hr] at h ⊢
    obtain ⟨token, hm, hproblem⟩ := ih h
    exact ⟨token, List.mem_cons_of_mem _ hm, hproblem⟩
  | case4 _ _ _ _ _ _ hs hc _ _ hr =>
    rw [scanRest_fault hs hc hr] at h ⊢
    cases h
    exact ⟨_, List.mem_cons_self, _, _, rfl⟩

theorem Run.problem?_refuses {run : Run} {problem : Problem} (h : run.problem? = some problem) :
    problem.Refuses (run.tokens ++ [run.terminator]) := by
  obtain ⟨tokens, terminator⟩ := run
  rw [problem?_eq_some_iff] at h
  cases tokens with
  | nil => cases h
  | cons opener tokens =>
    simp only [outcome?] at h
    split at h
    · cases h
    · exact Statement.ofTokens_error (Option.some.inj h)

namespace SourceLine

/-- What is wrong with the line: a lexeme that cannot be read, or tokens that are no declaration;
`final` ends the last line. -/
def problem? (final : Token) (line : SourceLine) : Option Problem :=
  line.held.problem.or (line.run final).problem?

variable {line : SourceLine} {final : Token} {problem : Problem}

theorem problem?_arisesIn (h : line.problem? final = some problem) :
    problem.ArisesIn (line.held.tokens ++ [(line.run final).terminator]) := by
  rcases Option.or_eq_some_iff.mp h with hlexical | ⟨-, hrefused⟩
  · obtain ⟨token, hm, fault, offending, heq⟩ := scanRest_problem_eq hlexical
    exact ⟨token, List.mem_append_left _ hm, _, heq⟩
  · exact (Run.problem?_refuses hrefused).arisesIn

/-- A problem stands on its line, the line feed included. -/
theorem place_of_problem? {text : List Char} (hm : line ∈ sourceLines text)
    (h : line.problem? (endToken text) = some problem) :
    problem.line = line.number ∧ line.start ≤ problem.span.start ∧
      problem.span.start ≤ line.stop := by
  obtain ⟨token, htoken, cause, rfl⟩ := problem?_arisesIn h
  show token.line = _ ∧ _ ≤ token.span.start ∧ token.span.start ≤ _
  rcases List.mem_append.mp htoken with htoken | htoken
  · obtain ⟨-, hnumber⟩ := scanRest_tokens line.number false line.start 1 line.text token htoken
    exact ⟨hnumber, bounds_of_mem_held htoken⟩
  · have hle : line.start ≤ line.stop := Nat.le_add_right _ _
    rw [List.mem_singleton.mp htoken, run]
    cases hlast : line.isLast with
    | true =>
      obtain ⟨hnumber, hstart⟩ := endToken_of_last hm hlast
      rw [if_pos rfl, hstart]
      exact ⟨hnumber, hle, Nat.le_refl _⟩
    | false => exact ⟨rfl, hle, Nat.le_refl _⟩

/-- A line has a lexical problem unless all its tokens could be read. -/
theorem problem_eq_none_iff (line : SourceLine) :
    line.held.problem = none ↔ ∀ token ∈ line.held.tokens, token.kind ≠ .unreadable := by
  constructor
  · exact ne_unreadable
  · intro hread
    rcases scanRest_cases line.number false line.start 1 line.text with
      ⟨kinds, comment, hlexes⟩ | ⟨-, -, token, hm, hk⟩
    · exact (holds_of_lexes hlexes).no_problem
    · exact absurd hk (hread token hm)

/-- A line gives one declaration or one problem if it has tokens, and nothing if not; a line with
a lexical problem is not refused once more. -/
theorem one_outcome (line : SourceLine) (final : Token) :
    (line.held.problem = none ∨ (line.run final).problem? = none) ∧
      line.statement?.isSome.toNat + (line.problem? final).isSome.toNat =
        (!line.held.tokens.isEmpty).toNat := by
  have hlexical := line.problem_eq_none_iff
  have hgives : Run.Gives line.held.tokens _ _ := (line.run final).gives
  rw [statement?_run] at hgives
  rw [problem?]
  generalize line.held.tokens = tokens at hlexical hgives ⊢
  generalize line.statement? = s? at hgives ⊢
  generalize (line.run final).problem? = refused at hgives ⊢
  cases hgives with
  | empty =>
    have hclean : line.held.problem = none := hlexical.mpr (by simp)
    simp [hclean]
  | @unreadable _ token hm hk =>
    have hfault : line.held.problem ≠ none := fun hnone => hlexical.mp hnone token hm hk
    obtain ⟨problem, hproblem⟩ := Option.ne_none_iff_exists'.mp hfault
    have hempty : tokens.isEmpty = false := List.isEmpty_eq_false_iff.mpr (List.ne_nil_of_mem hm)
    simp [hproblem, hempty]
  | declaration s hne hread =>
    have hclean : line.held.problem = none := hlexical.mpr hread
    have hempty : tokens.isEmpty = false := List.isEmpty_eq_false_iff.mpr hne
    simp [hclean, hempty]
  | refusal problem hne hread =>
    have hclean : line.held.problem = none := hlexical.mpr hread
    have hempty : tokens.isEmpty = false := List.isEmpty_eq_false_iff.mpr hne
    simp [hclean, hempty]

end SourceLine

/-! ## What is wrong with a source -/

namespace Document

/-- Problems of different lines stand in the order of the lines. -/
theorem pairwise_places (text : List Char) :
    (sourceLines text).Pairwise fun a b =>
      ∀ p ∈ a.problem? (endToken text), ∀ q ∈ b.problem? (endToken text),
        p.line < q.line ∧ p.span.start < q.span.start := by
  refine (pairwise_sourceLines text).imp_of_mem ?_
  intro a b ha hb hlt p hp q hq
  obtain ⟨hpline, -, hstop⟩ := SourceLine.place_of_problem? ha hp
  obtain ⟨hqline, hstart, -⟩ := SourceLine.place_of_problem? hb hq
  omega

/-- The problems of a source are those of its lines, in the order of the lines. -/
theorem problems_eq_filterMap (source : String) :
    (ofSource source).problems =
      (sourceLines source.toList).filterMap (SourceLine.problem? (endToken source.toList)) := by
  rw [problems_ofSource]
  apply sortBy_filterMap
  · intro p q r
    simpa only [startsFirst, decide_eq_true_eq] using le_trans
  · intro line hm
    exact (line.one_outcome _).1
  · refine (pairwise_places source.toList).imp ?_
    intro a b hplaces p hp q hq
    have hfirst := (hplaces p hp q hq).2
    simp only [startsFirst, decide_eq_true_eq]
    omega

theorem pairwise_problem_places (source : String) :
    (ofSource source).problems.Pairwise fun p q =>
      p.line < q.line ∧ p.span.start < q.span.start := by
  rw [problems_eq_filterMap, List.pairwise_filterMap]
  exact pairwise_places source.toList

/-- Problems stand in the order of their lines, one to a line. -/
theorem pairwise_problems (source : String) :
    (ofSource source).problems.Pairwise fun p q => p.line < q.line :=
  (pairwise_problem_places source).imp fun h => h.1

end Document

/-! ## The problem of a line -/

theorem filter_eq_singleton {α : Type} {key : α → Nat} {items : List α}
    (h : items.Pairwise fun a b => key a < key b) {a : α} (hm : a ∈ items) :
    items.filter (fun b => key b == key a) = [a] := by
  obtain ⟨front, behind, rfl⟩ := List.append_of_mem hm
  obtain ⟨-, hbehind, hfront⟩ := List.pairwise_append.mp h
  have hbefore : front.filter (fun b => key b == key a) = [] := by
    rw [List.filter_eq_nil_iff]
    intro b hb
    simpa using Nat.ne_of_lt (hfront b hb a List.mem_cons_self)
  have hafter : behind.filter (fun b => key b == key a) = [] := by
    rw [List.filter_eq_nil_iff]
    intro b hb
    simpa using Nat.ne_of_gt ((List.pairwise_cons.mp hbehind).1 b hb)
  rw [List.filter_append, List.filter_cons_of_pos (by simp), hbefore, hafter, List.nil_append]

section LineProblem

variable {source : String} {line : SourceLine} {problem : Problem}

/-- What is wrong with a line is all that is wrong with the source there. -/
theorem Document.filter_problems (hm : line ∈ sourceLines source.toList)
    (h : line.problem? (endToken source.toList) = some problem) :
    (ofSource source).problems.filter (fun p => p.line == line.number) = [problem] := by
  rw [← (SourceLine.place_of_problem? hm h).1]
  refine filter_eq_singleton (pairwise_problems source) ?_
  rw [problems_eq_filterMap]
  exact List.mem_filterMap.mpr ⟨line, hm, h⟩

theorem SourceLine.line_of_problem (hm : line ∈ sourceLines source.toList)
    (h : line.held.problem = some problem) : problem.line = line.number := by
  have hproblem : line.problem? (endToken source.toList) = some problem := by
    rw [problem?, h, Option.some_or]
  exact (place_of_problem? hm hproblem).1

/-- What the scanner finds wrong stands in the order of the lines, one problem to a line. -/
theorem TokenStream.pairwise_problems (source : String) :
    (ofSource source).problems.Pairwise fun p q => p.line < q.line := by
  rw [Document.problems_scanned, List.pairwise_filterMap]
  refine (pairwise_number_sourceLines source.toList).imp_of_mem ?_
  intro a b ha hb hlt p hp q hq
  rw [SourceLine.line_of_problem ha hp, SourceLine.line_of_problem hb hq]
  exact hlt

/-- What the scanner finds wrong with a line is all that it finds wrong there. -/
theorem TokenStream.filter_problems (hm : line ∈ sourceLines source.toList)
    (h : line.held.problem = some problem) :
    (ofSource source).problems.filter (fun p => p.line == line.number) = [problem] := by
  rw [← SourceLine.line_of_problem hm h]
  refine filter_eq_singleton (pairwise_problems source) ?_
  rw [Document.problems_scanned]
  exact List.mem_filterMap.mpr ⟨line, hm, h⟩

end LineProblem

/-! ## Counting outcomes -/

theorem countP_add_countP {α : Type} {p q r : α → Bool} {items : List α}
    (h : ∀ x ∈ items, (p x).toNat + (q x).toNat = (r x).toNat) :
    items.countP p + items.countP q = items.countP r := by
  have hcount (p : α → Bool) (x : α) (items : List α) :
      (x :: items).countP p = items.countP p + (p x).toNat := by
    rw [List.countP_cons]
    cases p x <;> rfl
  induction items with
  | nil => rfl
  | cons x items ih =>
    obtain ⟨hx, hitems⟩ := List.forall_mem_cons.mp h
    have ih := ih hitems
    rw [hcount, hcount, hcount]
    omega

/-- Declarations and problems on chosen lines are as many as chosen lines with tokens. -/
theorem Document.countP_outcomes (source : String) (chosen : Nat → Bool) :
    ((ofSource source).program.countP fun s => chosen s.line) +
        ((ofSource source).problems.countP fun p => chosen p.line) =
      (sourceLines source.toList).countP fun line =>
        chosen line.number && !line.held.tokens.isEmpty := by
  rw [program_ofSource, problems_eq_filterMap, List.countP_filterMap, List.countP_filterMap]
  apply countP_add_countP
  intro line hm
  have hdeclared : (line.statement?.map fun s => chosen s.line).getD false =
      (chosen line.number && line.statement?.isSome) := by
    cases hs : line.statement? with
    | none => simp
    | some s => simp [SourceLine.line_of_statement? hs]
  have hrefused : ((line.problem? (endToken source.toList)).map fun p => chosen p.line).getD
      false = (chosen line.number && (line.problem? (endToken source.toList)).isSome) := by
    cases hp : line.problem? (endToken source.toList) with
    | none => simp
    | some p => simp [(SourceLine.place_of_problem? hm hp).1]
  have hone := (line.one_outcome (endToken source.toList)).2
  rw [hdeclared, hrefused]
  cases chosen line.number with
  | false => rfl
  | true => simpa only [Bool.true_and] using hone

namespace TokenStream

/-- A token stands on the line, the line feed and the end aside. -/
def carries (stream : TokenStream) (number : Nat) : Bool :=
  stream.tokens.any fun token => !token.kind.isTerminator && token.line == number

theorem carries_iff {source : String} {number : Nat} :
    (ofSource source).carries number ↔
      ∃ line ∈ sourceLines source.toList, line.number = number ∧ line.held.tokens ≠ [] := by
  have hread {line : SourceLine} (hm : line ∈ sourceLines source.toList) :=
    scanRest_tokens line.number false line.start 1 line.text
  simp only [carries, List.any_eq_true, Bool.and_eq_true, Bool.not_eq_true', beq_iff_eq]
  constructor
  · rintro ⟨token, htoken, hkind, rfl⟩
    rcases mem_tokens_iff.mp htoken with ⟨line, hm, htoken⟩ | rfl
    · have hheld : token ∈ line.held.tokens := by
        rcases SourceLine.mem_held_or_eq htoken with hheld | rfl
        · exact hheld
        · cases hkind
      exact ⟨line, hm, (hread hm token hheld).2.symm, List.ne_nil_of_mem hheld⟩
    · cases hkind
  · rintro ⟨line, hm, rfl, hne⟩
    obtain ⟨token, hheld⟩ := List.exists_mem_of_ne_nil _ hne
    obtain ⟨hkind, hnumber⟩ := hread hm token hheld
    obtain ⟨hnewline, hdone⟩ := TokenKind.not_terminator hkind
    refine ⟨token, ?_, by simp [TokenKind.isTerminator, hnewline, hdone], hnumber⟩
    exact scan_subset hm (SourceLine.mem_scan_of_held hheld)

end TokenStream

/-- Lines have different numbers, so a number is that of one line with tokens or of none. -/
theorem countP_carrying (source : String) (number : Nat) :
    ((sourceLines source.toList).countP fun line =>
        line.number == number && !line.held.tokens.isEmpty) =
      if (TokenStream.ofSource source).carries number then 1 else 0 := by
  have hle : ((sourceLines source.toList).countP fun line =>
      line.number == number && !line.held.tokens.isEmpty) ≤ 1 := by
    have hnodup : ((sourceLines source.toList).map SourceLine.number).Nodup := by
      rw [sourceLines, map_number_numberLines]
      exact List.nodup_range'
    have hcount := List.nodup_iff_count_le_one.mp hnodup number
    rw [List.count, List.countP_map] at hcount
    refine le_trans (List.countP_mono_left fun line _ h => ?_) hcount
    exact (Bool.and_eq_true_iff.mp h).1
  have hpos : 0 < ((sourceLines source.toList).countP fun line =>
      line.number == number && !line.held.tokens.isEmpty) ↔
      (TokenStream.ofSource source).carries number := by
    rw [List.countP_pos_iff, TokenStream.carries_iff]
    simp
  split
  · rename_i hcarries
    have hpos := hpos.mpr hcarries
    omega
  · rename_i hcarries
    have hzero := mt hpos.mp hcarries
    omega

theorem countP_pieces_le (text : List Char) :
    ((pieces text).countP fun piece => !piece.isEmpty) ≤ (contents text).length := by
  rcases List.eq_nil_or_concat (pieces text) with hnil | ⟨front, last, heq⟩
  · exact absurd hnil (pieces_ne_nil text)
  · have hfront := List.countP_le_length (p := fun piece : List Char => !piece.isEmpty) (l := front)
    rw [contents, heq, List.concat_eq_append, List.countP_append]
    cases last with
    | nil => simpa using hfront
    | cons c last => simpa using hfront

/-- Numbered by its line feeds, a line of a source on which a token stands gives exactly one
declaration or one problem, and every other line gives none. -/
theorem one_outcome_for_each_line (source : String) :
    (∀ token ∈ (TokenStream.ofSource source).tokens, token.StandsIn source.toList) ∧
      let document := Document.ofSource source
      (∀ number, (document.program.countP fun s => s.line == number) +
          (document.problems.countP fun p => p.line == number) =
        if (TokenStream.ofSource source).carries number then 1 else 0) ∧
      (document.program.map Statement.line).Pairwise (· < ·) ∧
      (document.problems.map Problem.line).Pairwise (· < ·) ∧
      (document.program.map Statement.line).Disjoint (document.problems.map Problem.line) ∧
      document.program.length + document.problems.length ≤ (contents source.toList).length := by
  refine ⟨fun token => TokenStream.standsIn_of_mem, ?_⟩
  intro document
  have hcount (number : Nat) : (document.program.countP fun s => s.line == number) +
      (document.problems.countP fun p => p.line == number) =
        if (TokenStream.ofSource source).carries number then 1 else 0 := by
    rw [← countP_carrying]
    exact Document.countP_outcomes source (· == number)
  refine ⟨hcount, ?_, ?_, ?_, ?_⟩
  · exact List.pairwise_map.mpr (Document.pairwise_program source)
  · exact List.pairwise_map.mpr (Document.pairwise_problems source)
  · intro number hprogram hproblems
    obtain ⟨s, hs, rfl⟩ := List.mem_map.mp hprogram
    obtain ⟨p, hp, hline⟩ := List.mem_map.mp hproblems
    have hdeclared : 0 < document.program.countP fun t => t.line == s.line :=
      List.countP_pos_iff.mpr ⟨s, hs, by simp⟩
    have hrefused : 0 < document.problems.countP fun q => q.line == s.line :=
      List.countP_pos_iff.mpr ⟨p, hp, by simp [hline]⟩
    have hone := hcount s.line
    split at hone <;> omega
  · have htotal := Document.countP_outcomes source fun _ => true
    simp only [List.countP_true, Bool.true_and] at htotal
    have hpieces := countP_pieces_le source.toList
    rw [← map_text_numberLines 1 0 (pieces source.toList), List.countP_map] at hpieces
    rw [htotal]
    refine le_trans (List.countP_mono_left fun line _ hne => ?_) hpieces
    simp only [Bool.not_eq_true', List.isEmpty_eq_false_iff] at hne
    simpa using fun hnil => hne (SourceLine.held_tokens_of_nil hnil)

end ResourceDecl
