import ResourceDecl.Proofs.Documents.Simulation

/-!
# Recovery on arbitrary tokens

Tokens need not come from a source: the end of the input may be missing or stand anywhere, and
tokens may carry what no line spells. They fall into lines all the same (`CutsInto`), and what a
line gives does not depend on the other lines.

* `exists_cutsInto`: any tokens are cut into lines.
* `filterMap_runs_newline`: the step, one line and what stands behind it.
* `CutsInto.filterMap_runs`: by induction, all lines.
* `ofTokens_by_lines`: a document is put together from the documents of its lines, each read with
  no more than its own end.
-/

namespace ResourceDecl

/-! ## Lines of tokens -/

/-- The tokens are cut into these lines. A line ends in a newline; the last one ends in the end of
the input, behind which no token counts, or it has no end. -/
inductive CutsInto : List Token → List (List Token × Option Token) → Prop
  | last {line : List Token} : Unended line → CutsInto line [(line, none)]
  | done {line : List Token} {done : Token} {ignored : List Token} :
      Unended line → done.kind = .done → CutsInto (line ++ done :: ignored) [(line, some done)]
  | newline {line rest : List Token} {newline : Token}
      {lines : List (List Token × Option Token)} :
      Unended line → newline.kind = .newline → CutsInto rest lines →
        CutsInto (line ++ newline :: rest) ((line, some newline) :: lines)

theorem CutsInto.cons {token : Token} {tokens : List Token}
    {lines : List (List Token × Option Token)}
    (htoken : token.kind ≠ .newline ∧ token.kind ≠ .done) (h : CutsInto tokens lines) :
    ∃ lines, CutsInto (token :: tokens) lines := by
  cases h with
  | last hline => exact ⟨_, .last (unended_cons.mpr ⟨htoken, hline⟩)⟩
  | @done line done ignored hline hdone =>
    exact ⟨_, @CutsInto.done (token :: line) _ _ (unended_cons.mpr ⟨htoken, hline⟩) hdone⟩
  | @newline line rest newline lines hline hnewline hrest =>
    exact ⟨_, @CutsInto.newline (token :: line) _ _ _ (unended_cons.mpr ⟨htoken, hline⟩) hnewline
      hrest⟩

theorem exists_cutsInto (tokens : List Token) : ∃ lines, CutsInto tokens lines := by
  induction tokens with
  | nil => exact ⟨_, .last unended_nil⟩
  | cons token tokens ih =>
    obtain ⟨lines, hlines⟩ := ih
    by_cases hnewline : token.kind = .newline
    · exact ⟨_, @CutsInto.newline [] _ _ _ unended_nil hnewline hlines⟩
    · by_cases hdone : token.kind = .done
      · exact ⟨_, @CutsInto.done [] _ _ unended_nil hdone⟩
      · exact hlines.cons ⟨hnewline, hdone⟩

theorem CutsInto.ends {tokens : List Token} {lines : List (List Token × Option Token)}
    (h : CutsInto tokens lines) : ∀ line ∈ lines, Unended line.1 ∧
      ∀ terminator ∈ line.2, terminator.kind = .newline ∨ terminator.kind = .done := by
  induction h with
  | last hline => simpa using hline
  | done hline hdone => simpa [hdone] using hline
  | newline hline hnewline _ ih =>
    exact List.forall_mem_cons.mpr ⟨by simpa [hnewline] using hline, ih⟩

/-! ## Runs of lines -/

section Runs

variable {α : Type} {f : Run → Option α}

theorem filterMap_runs_unended {line : List Token} (hline : Unended line) :
    (runs line).filterMap f = (f ⟨line, impliedEnd line⟩).toList := by
  rw [runs_of_no_done fun token hm => (hline token hm).2,
    cutRuns_last _ fun token hm => (hline token hm).1]
  cases hf : f ⟨line, impliedEnd line⟩ <;> simp [hf]

/-- What stands behind the end of the input does not count. -/
theorem runs_append_done_cons (tokens : List Token) {done : Token} (hdone : done.kind = .done)
    (ignored : List Token) : runs (tokens ++ done :: ignored) = runs (tokens ++ [done]) := by
  have hlive (ignored : List Token) :
      (tokens ++ done :: ignored).takeWhile (fun token => token.kind != .done) =
        tokens.takeWhile fun token => token.kind != .done := by
    induction tokens with
    | nil => simp [hdone]
    | cons token tokens ih => rw [List.cons_append, List.takeWhile_cons, List.takeWhile_cons, ih]
  have hfinal : ∃ final, ∀ ignored,
      (tokens ++ done :: ignored).find? (fun token => token.kind == .done) = some final := by
    simp only [List.find?_append, List.find?_cons, hdone, BEq.rfl]
    cases tokens.find? fun token => token.kind == .done <;> simp
  obtain ⟨final, hfinal⟩ := hfinal
  rw [runs, runs, hlive, hlive, hfinal, hfinal]
  rfl

theorem impliedEnd_append_cons (line : List Token) (token : Token) (rest : List Token) :
    impliedEnd (line ++ token :: rest) = impliedEnd (token :: rest) := by
  rw [impliedEnd, impliedEnd, List.getLast?_append, List.getLast?_cons, Option.some_or]

/-- A line in front of other lines gives what it gives, whatever they are. -/
theorem filterMap_runs_newline (hnil : ∀ terminator, f ⟨[], terminator⟩ = none)
    {line : List Token} {newline : Token} (hline : Unended line)
    (hnewline : newline.kind = .newline) (rest : List Token) :
    (runs (line ++ newline :: rest)).filterMap f =
      (f ⟨line, newline⟩).toList ++ (runs rest).filterMap f := by
  have hcut (final : Token) (live : List Token) :
      (cutRuns final (line ++ newline :: live)).filterMap f =
        (f ⟨line, newline⟩).toList ++ (cutRuns final live).filterMap f := by
    rw [cutRuns_line final (fun token hm => (hline token hm).1) hnewline, List.filterMap_cons]
    cases f ⟨line, newline⟩ <;> rfl
  have hlive : (line ++ newline :: rest).takeWhile (fun token => token.kind != .done) =
      line ++ newline :: rest.takeWhile fun token => token.kind != .done := by
    rw [List.takeWhile_append_of_pos fun token hm => bne_iff_ne.mpr (hline token hm).2]
    simp [hnewline]
  have hfind : (line ++ newline :: rest).find? (fun token => token.kind == .done) =
      rest.find? fun token => token.kind == .done := by
    have hnone : line.find? (fun token => token.kind == .done) = none :=
      List.find?_eq_none.mpr (by simpa using fun token hm => (hline token hm).2)
    rw [List.find?_append, hnone]
    simp [hnewline]
  rw [runs, runs, hlive, hfind, hcut]
  congr 1
  cases rest with
  | nil =>
    -- the implied ends differ, but nothing stands in front of them
    simp [cutRuns_last, hnil]
  | cons token rest =>
    rw [List.append_cons, impliedEnd_append_cons]

/-- The runs of tokens are those of their lines. -/
theorem CutsInto.filterMap_runs (hnil : ∀ terminator, f ⟨[], terminator⟩ = none)
    {tokens : List Token} {lines : List (List Token × Option Token)} (h : CutsInto tokens lines) :
    (runs tokens).filterMap f =
      lines.flatMap fun line => (runs (line.1 ++ line.2.toList)).filterMap f := by
  induction h with
  | last => simp
  | done hline hdone =>
    rw [runs_append_done_cons _ hdone]
    simp
  | newline hline hnewline _ ih =>
    rw [filterMap_runs_newline hnil hline hnewline, List.flatMap_cons, ← ih, Option.toList_some,
      filterMap_runs_line hnil hline (.inl hnewline)]

end Runs

/-! ## Documents of lines -/

namespace Document

/-- The document of one line with its end, if it has one. -/
theorem ofTokens_line {line : List Token} {terminator : Option Token} (hline : Unended line)
    (hterminator : ∀ token ∈ terminator, token.kind = .newline ∨ token.kind = .done) :
    ∃ s? problem?, Run.Gives line s? problem? ∧
      ofTokens (line ++ terminator.toList) = ⟨s?.toList, problem?.toList, []⟩ := by
  cases terminator with
  | none =>
    refine ⟨_, _, (Run.mk line (impliedEnd line)).gives, ?_⟩
    rw [Option.toList_none, List.append_nil, ofTokens_eq_runs, filterMap_runs_unended hline,
      filterMap_runs_unended hline]
  | some terminator =>
    refine ⟨_, _, (Run.mk line terminator).gives, ?_⟩
    have hends := hterminator terminator rfl
    rw [Option.toList_some, ofTokens_eq_runs, filterMap_runs_line Run.statement?_nil hline hends,
      filterMap_runs_line Run.problem?_nil hline hends]

end Document

/-- Any tokens whatsoever are cut into lines, what stands behind the end of the input does not
count, and a document is put together from the documents of its lines: nothing from a line without
tokens or with one that could not be read, and one declaration or one problem from each other. -/
theorem ofTokens_by_lines (tokens : List Token) :
    (∀ done ignored, done.kind = .done → Document.ofTokens (tokens ++ done :: ignored) =
      Document.ofTokens (tokens ++ [done])) ∧
    ∃ lines, CutsInto tokens lines ∧
      Document.ofTokens tokens =
        ⟨lines.flatMap fun line => (Document.ofTokens (line.1 ++ line.2.toList)).program,
          lines.flatMap fun line => (Document.ofTokens (line.1 ++ line.2.toList)).problems, []⟩ ∧
      ∀ line ∈ lines, ∃ s? problem?, Run.Gives line.1 s? problem? ∧
        Document.ofTokens (line.1 ++ line.2.toList) = ⟨s?.toList, problem?.toList, []⟩ := by
  constructor
  · intro done ignored hdone
    rw [Document.ofTokens_eq_runs, Document.ofTokens_eq_runs, runs_append_done_cons tokens hdone]
  · obtain ⟨lines, hlines⟩ := exists_cutsInto tokens
    refine ⟨lines, hlines, ?_, fun line hm => ?_⟩
    · rw [Document.ofTokens_eq_runs, hlines.filterMap_runs Run.statement?_nil,
        hlines.filterMap_runs Run.problem?_nil]
      simp only [Document.ofTokens_eq_runs]
    · obtain ⟨hline, hterminator⟩ := hlines.ends line hm
      exact Document.ofTokens_line hline hterminator

end ResourceDecl
