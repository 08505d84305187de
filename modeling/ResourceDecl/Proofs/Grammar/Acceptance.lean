import ResourceDecl.Proofs.Documents.Simulation
import ResourceDecl.Proofs.Grammar.Greed

/-!
# Which lines are accepted

A line that opens with a keyword is a declaration if and only if it has a form and its tokens
split by the shape of that form, and the declaration is the one of the longest split
(`declares_iff_splits`). The tokens are any tokens, also such as no source has.
-/

namespace ResourceDecl

theorem program_line {opener terminator : Token} {tokens : List Token}
    (htokens : ∀ token ∈ opener :: tokens,
      token.kind ≠ .newline ∧ token.kind ≠ .done ∧ token.kind ≠ .unreadable)
    (hterminator : terminator.kind = .newline ∨ terminator.kind = .done) (s : Statement) :
    (Document.ofTokens (opener :: tokens ++ [terminator])).program = [s] ↔
      Statement.ofTokens opener tokens terminator = .ok s := by
  have hruns : (Document.ofTokens (opener :: tokens ++ [terminator])).program =
      (Run.statement? ⟨opener :: tokens, terminator⟩).toList := by
    rw [Document.ofTokens_eq_runs]
    exact filterMap_runs_line Run.statement?_nil
      (fun token ht => ⟨(htokens token ht).1, (htokens token ht).2.1⟩) hterminator
  have houtcome : Run.outcome? ⟨opener :: tokens, terminator⟩ =
      some (Statement.ofTokens opener tokens terminator) :=
    Run.outcome?_cons fun token ht => (htokens token ht).2.2
  rw [hruns, Option.toList_eq_singleton_iff, Run.statement?_eq_some_iff, houtcome]
  simp

/-- A line of tokens gives one declaration or one problem. -/
theorem ofTokens_line {opener terminator : Token} {tokens : List Token}
    (htokens : ∀ token ∈ opener :: tokens,
      token.kind ≠ .newline ∧ token.kind ≠ .done ∧ token.kind ≠ .unreadable)
    (hterminator : terminator.kind = .newline ∨ terminator.kind = .done) :
    Document.ofTokens (opener :: tokens ++ [terminator]) =
      match Statement.ofTokens opener tokens terminator with
      | .ok s => ⟨[s], [], []⟩
      | .error problem => ⟨[], [problem], []⟩ := by
  have hline : ∀ token ∈ opener :: tokens, token.kind ≠ .newline ∧ token.kind ≠ .done :=
    fun token ht => ⟨(htokens token ht).1, (htokens token ht).2.1⟩
  have houtcome : Run.outcome? ⟨opener :: tokens, terminator⟩ =
      some (Statement.ofTokens opener tokens terminator) :=
    Run.outcome?_cons fun token ht => (htokens token ht).2.2
  rw [Document.ofTokens_eq_runs, filterMap_runs_line Run.statement?_nil hline hterminator,
    filterMap_runs_line Run.problem?_nil hline hterminator, Run.statement?, Run.problem?, houtcome]
  cases Statement.ofTokens opener tokens terminator <;> rfl

/-- A line that opens with a keyword is a declaration exactly if its tokens have a form and split
by the shape of that form; the declaration is the one that the grammar gives to the line. -/
theorem declares_iff_splits {k : Keyword} {opener terminator : Token} {tokens : List Token}
    (hopener : opener.kind = .keyword k)
    (htokens : ∀ token ∈ tokens,
      token.kind ≠ .newline ∧ token.kind ≠ .done ∧ token.kind ≠ .unreadable)
    (hterminator : terminator.kind = .newline ∨ terminator.kind = .done) :
    ((∃ s, (Document.ofTokens (opener :: tokens ++ [terminator])).program = [s]) ↔
      ∃ form shape lengths fields, k.Selects tokens form ∧ k.shape? form = some shape ∧
        shape.Splits lengths tokens fields) ∧
    ∀ s, (Document.ofTokens (opener :: tokens ++ [terminator])).program = [s] ↔
      s.Derives opener tokens := by
  have hline : ∀ token ∈ opener :: tokens,
      token.kind ≠ .newline ∧ token.kind ≠ .done ∧ token.kind ≠ .unreadable := by
    refine List.forall_mem_cons.mpr ⟨?_, htokens⟩
    rw [hopener]
    exact ⟨nofun, nofun, nofun⟩
  have hderives (s : Statement) :
      (Document.ofTokens (opener :: tokens ++ [terminator])).program = [s] ↔
        s.Derives opener tokens :=
    (program_line hline hterminator s).trans ofTokens_eq_ok_iff
  refine ⟨?_, hderives⟩
  constructor
  · rintro ⟨s, hs⟩
    obtain ⟨hk, hform, ⟨shape, lengths, hshape, hlong⟩, -, -⟩ := (hderives s).mp hs
    obtain rfl : k = s.keyword := TokenKind.keyword.inj (hopener.symm.trans hk)
    exact ⟨_, shape, lengths, _, hform, hshape, hlong.splits⟩
  · rintro ⟨form, shape, lengths, fields, hform, hshape, hsplits⟩
    obtain ⟨lengths, fields, hlong⟩ := hsplits.exists_longest hshape
    exact ⟨⟨k, form, fields, opener.line, ⟨opener.span.start, stopOf opener fields⟩⟩,
      (hderives _).mpr ⟨hopener, hform, ⟨shape, lengths, hshape, hlong⟩, rfl, rfl⟩⟩

/-- `OBJECTS` with a sort key that either chain could take: the line is a declaration, and its
sort key goes to the first chain. -/
theorem declares_iff_splits_objects :
    let token (kind : TokenKind) : Token := ⟨kind, ⟨0, 0⟩, 1, 1⟩
    let opener := token (.keyword .objects)
    let tokens := [.ident "o", .string "a.tmx", .string "l", .string "d", .sortKey "x"].map token
    let fields : List Field := [⟨.name, .ident "o", ⟨0, 0⟩⟩, ⟨.tmxFile, .str "a.tmx", ⟨0, 0⟩⟩,
      ⟨.layerId, .str "l", ⟨0, 0⟩⟩, ⟨.fieldDefs, .str "d", ⟨0, 0⟩⟩, ⟨.sortBy, .sortKey "x", ⟨0, 0⟩⟩]
    let s : Statement := ⟨.objects, none, fields, 1, ⟨0, 0⟩⟩
    (Document.ofTokens (opener :: tokens ++ [token .newline])).program = [s] ∧
      s.Derives opener tokens ∧
      ∃ form shape lengths fields, Keyword.objects.Selects tokens form ∧
        Keyword.objects.shape? form = some shape ∧ shape.Splits lengths tokens fields := by
  intro token opener tokens fields s
  have hopener : opener.kind = .keyword .objects := rfl
  have htokens : ∀ token ∈ tokens,
      token.kind ≠ .newline ∧ token.kind ≠ .done ∧ token.kind ≠ .unreadable := by decide
  have hterminator : (token .newline).kind = .newline ∨ (token .newline).kind = .done := .inl rfl
  have hprogram : (Document.ofTokens (opener :: tokens ++ [token .newline])).program = [s] := by
    decide +kernel
  obtain ⟨haccepted, hderives⟩ := declares_iff_splits hopener htokens hterminator
  exact ⟨hprogram, (hderives s).mp hprogram, haccepted.mp ⟨s, hprogram⟩⟩

end ResourceDecl
