import ResourceDecl.Proofs.Grammar.Greed

/-!
# Where problems arise

A line of tokens that is no declaration is refused at one of its tokens or at the token that ends
it, and a problem takes its place from that token. No such problem is lexical.

* `Problem.ArisesIn`: the problem has the place of one of these tokens.
* `Problem.Refuses`: the same of a problem that is not lexical.
* `takeField_error`, `takeRequired_error`, `takeChains_error`: the readers of fields.
* `Statement.ofTokens_error`: the reader of declarations.
-/

namespace ResourceDecl

/-- The problem arises at one of these tokens. -/
def Problem.ArisesIn (problem : Problem) (tokens : List Token) : Prop :=
  ∃ token ∈ tokens, ∃ cause, problem = token.problem cause

theorem Problem.arisesIn_of_mem {token : Token} {tokens : List Token} (h : token ∈ tokens)
    (cause : Cause) : (token.problem cause).ArisesIn tokens :=
  ⟨token, h, cause, rfl⟩

theorem Problem.ArisesIn.mono {problem : Problem} {tokens others : List Token}
    (h : problem.ArisesIn tokens) (hsub : tokens ⊆ others) : problem.ArisesIn others := by
  obtain ⟨token, hm, cause, rfl⟩ := h
  exact arisesIn_of_mem (hsub hm) cause

/-- The tokens are refused at one of them, for a reason that is not lexical. -/
structure Problem.Refuses (problem : Problem) (tokens : List Token) : Prop where
  arisesIn : problem.ArisesIn tokens
  not_lexical : problem.cause.kind ≠ .lexical

theorem Problem.refuses_of_mem {token : Token} {tokens : List Token} (h : token ∈ tokens)
    {cause : Cause} (hcause : cause.kind ≠ .lexical) : (token.problem cause).Refuses tokens :=
  ⟨arisesIn_of_mem h cause, hcause⟩

theorem Problem.Refuses.mono {problem : Problem} {tokens others : List Token}
    (h : problem.Refuses tokens) (hsub : tokens ⊆ others) : problem.Refuses others :=
  ⟨h.arisesIn.mono hsub, h.not_lexical⟩

theorem bind_eq_error_iff {ε α β : Type} {x : Except ε α} {f : α → Except ε β} {e : ε} :
    (x >>= f) = .error e ↔ x = .error e ∨ ∃ a, x = .ok a ∧ f a = .error e := by
  cases x <;> simp [bind, Except.bind]

/-! ## Values -/

theorem mapM_eq_error {ε α β : Type} {f : α → Except ε β} {xs : List α} {e : ε}
    (h : xs.mapM f = .error e) : ∃ x ∈ xs, f x = .error e := by
  induction xs with
  | nil => cases h
  | cons x xs ih =>
    rw [List.mapM_cons] at h
    rcases bind_eq_error_iff.mp h with hx | ⟨y, -, h⟩
    · exact ⟨x, List.mem_cons_self, hx⟩
    · rcases bind_eq_error_iff.mp h with hxs | ⟨ys, -, h⟩
      · obtain ⟨z, hz, he⟩ := ih hxs
        exact ⟨z, List.mem_cons_of_mem _ hz, he⟩
      · cases h

theorem intOf_error {numeral : String} {cause : Cause} (h : intOf numeral = .error cause) :
    cause = .overflow numeral := by
  unfold intOf at h
  split at h <;> cases h
  rfl

/-- A value is refused for one reason only. -/
theorem FieldClass.value?_error {accepts : FieldClass} {kind : TokenKind} {cause : Cause}
    (h : accepts.value? kind = .error cause) : ∃ numeral, cause = .overflow numeral := by
  have hone {numeral : String} {f : Int → Option FieldValue}
      (h : (intOf numeral >>= fun value => pure (f value)) = .error cause) :
      ∃ numeral, cause = .overflow numeral := by
    rcases bind_eq_error_iff.mp h with h | ⟨_, _, h⟩
    · exact ⟨numeral, intOf_error h⟩
    · cases h
  unfold FieldClass.value? at h
  split at h
  any_goals exact hone h
  any_goals cases h
  · rcases bind_eq_error_iff.mp h with h | ⟨_, _, h⟩
    · obtain ⟨numeral, -, h⟩ := mapM_eq_error h
      exact ⟨numeral, intOf_error h⟩
    · cases h
  · rcases bind_eq_error_iff.mp h with h | ⟨_, _, h⟩
    · obtain ⟨row, -, h⟩ := mapM_eq_error h
      obtain ⟨numeral, -, h⟩ := mapM_eq_error h
      exact ⟨numeral, intOf_error h⟩
    · cases h

theorem missingCause_not_lexical (k : Keyword) (spec : FieldSpec) (found : TokenKind) :
    (missingCause k spec found).kind ≠ .lexical := by
  unfold missingCause
  split <;> nofun

theorem trailingCause_not_lexical (k : Keyword) (missed : List FieldSpec) (found : TokenKind) :
    (trailingCause k missed found).kind ≠ .lexical := by
  unfold trailingCause
  split
  · split <;> nofun
  · nofun

/-! ## Fields -/

theorem takeField_error {spec : FieldSpec} {tokens : List Token} {problem : Problem}
    (h : takeField spec tokens = .error problem) : problem.Refuses tokens := by
  unfold takeField at h
  split at h
  · cases h
  · split at h
    · cases h
    · split at h <;> cases h
      rename_i hvalue
      obtain ⟨numeral, rfl⟩ := FieldClass.value?_error hvalue
      exact Problem.refuses_of_mem List.mem_cons_self nofun

theorem takeRequired_error {k : Keyword} {terminator : Token} {specs : List FieldSpec}
    {tokens : List Token} {problem : Problem}
    (h : takeRequired k terminator specs tokens = .error problem) :
    problem.Refuses (tokens ++ [terminator]) := by
  induction specs generalizing tokens with
  | nil => cases h
  | cons spec specs ih =>
    rw [takeRequired] at h
    rcases bind_eq_error_iff.mp h with hfield | ⟨found, hfield, h⟩
    · exact (takeField_error hfield).mono (List.subset_append_left _ _)
    · cases found with
      | none =>
        cases h
        refine Problem.refuses_of_mem ?_ (missingCause_not_lexical k spec _)
        cases tokens <;> simp
      | some found =>
        obtain ⟨head, rfl, -⟩ := takeField_sound hfield
        rcases bind_eq_error_iff.mp h with h | ⟨_, _, h⟩
        · rw [List.append_assoc]
          exact (ih h).mono (List.subset_append_right _ _)
        · cases h

theorem takeChain_error {chain : List FieldSpec} {tokens : List Token} {problem : Problem}
    (h : takeChain chain tokens = .error problem) : problem.Refuses tokens := by
  induction chain generalizing tokens with
  | nil => cases h
  | cons spec chain ih =>
    rw [takeChain] at h
    rcases bind_eq_error_iff.mp h with hfield | ⟨found, hfield, h⟩
    · exact takeField_error hfield
    · cases found with
      | none => cases h
      | some found =>
        obtain ⟨head, rfl, -⟩ := takeField_sound hfield
        rcases bind_eq_error_iff.mp h with h | ⟨_, _, h⟩
        · exact (ih h).mono (List.subset_append_right _ _)
        · cases h

theorem takeChains_error {chains : List (List FieldSpec)} {tokens : List Token}
    {problem : Problem} (h : takeChains chains tokens = .error problem) :
    problem.Refuses tokens := by
  induction chains generalizing tokens with
  | nil => cases h
  | cons chain chains ih =>
    rw [takeChains] at h
    rcases bind_eq_error_iff.mp h with h | ⟨taken, htaken, h⟩
    · exact takeChain_error h
    · obtain ⟨_, head, -, heq, -⟩ := takeChain_sound htaken
      rcases bind_eq_error_iff.mp h with h | ⟨_, _, h⟩
      · rw [heq]
        exact (ih h).mono (List.subset_append_right _ _)
      · cases h

/-! ## Declarations -/

namespace Statement

theorem ofShape_error {opener terminator : Token} {k : Keyword} {form : Option Form}
    {shape : Shape} {tokens : List Token} {problem : Problem}
    (h : ofShape opener terminator k form shape tokens = .error problem) :
    problem.Refuses (tokens ++ [terminator]) := by
  rw [ofShape] at h
  rcases bind_eq_error_iff.mp h with hrequired | ⟨⟨required, rest⟩, hrequired, hbehind⟩
  · exact takeRequired_error hrequired
  · obtain ⟨head, rfl, -⟩ := takeRequired_sound hrequired
    rcases bind_eq_error_iff.mp hbehind with hchains | ⟨taken, hchains, hleft⟩
    · apply (takeChains_error hchains).mono
      simp
    · obtain ⟨_, middle, hrest, -⟩ := takeChains_sound hchains
      split at hleft
      · rename_i heq
        cases hleft
        refine Problem.refuses_of_mem ?_ (trailingCause_not_lexical k _ _)
        simp [hrest, heq]
      · cases hleft

/-- A line is refused at one of its tokens or at the token that ends it. -/
theorem ofTokens_error {opener terminator : Token} {tokens : List Token} {problem : Problem}
    (h : ofTokens opener tokens terminator = .error problem) :
    problem.Refuses (opener :: tokens ++ [terminator]) := by
  have hopener {cause : Cause} (hcause : cause.kind ≠ .lexical) :
      (opener.problem cause).Refuses (opener :: tokens ++ [terminator]) :=
    Problem.refuses_of_mem List.mem_cons_self hcause
  have htail : tokens ++ [terminator] ⊆ opener :: tokens ++ [terminator] :=
    List.subset_cons_self _ _
  rw [ofTokens] at h
  split at h
  · split at h
    · exact (ofShape_error h).mono htail
    · split at h
      · exact (ofShape_error h).mono htail
      · exact (ofShape_error h).mono htail
      · cases h
        exact hopener nofun
  · cases h
    exact hopener nofun
  · cases h
    exact hopener nofun

end Statement

end ResourceDecl
