import ResourceDecl.Proofs.Grammar.Stall
import ResourceDecl.Proofs.Statements.Printed
import ResourceDecl.Proofs.Places.Relocation

/-!
# Where a line goes wrong

A line that is refused is refused at the first token that no declaration has there: the tokens in
front of it begin a declaration, and no declaration begins with them and that token. The one
exception is a map that announces no form, which is refused at its keyword.

* `KindsDeclare`: whether a line is a declaration is a matter of the kinds of its tokens.
* `FieldClass.exists_admits`, `exists_completion`: every position takes something, and it can be
  written down.
* `ofShape_stalls`: the readers stop at a token that cannot stand there, and the tokens in front of
  it split by the shape as soon as the required fields that are missing stand behind them.
* `ofTokens_refusal`: the result.
-/

namespace ResourceDecl

open Text

/-! ## Kinds of tokens -/

/-- A token without a place. -/
def TokenKind.bare (kind : TokenKind) : Token :=
  ⟨kind, ⟨0, 0⟩, 0, 0⟩

theorem TokenKind.map_kind_bare (kinds : List TokenKind) :
    (kinds.map bare).map Token.kind = kinds := by
  rw [List.map_map]
  exact List.map_id _

/-- Kinds that start with the kind of a token are those of tokens that start with it. -/
theorem exists_tokens_of_kinds {kinds : List TokenKind} {rest : List Token}
    (h : kinds.head? = (rest.map Token.kind).head?) :
    ∃ tokens : List Token, tokens.map Token.kind = kinds ∧ tokens.head? = rest.head? := by
  cases rest with
  | nil => exact ⟨[], (List.head?_eq_none_iff.mp h).symm, rfl⟩
  | cons token rest =>
    obtain ⟨tail, rfl⟩ := List.head?_eq_some_iff.mp h
    refine ⟨token :: tail.map TokenKind.bare, ?_, rfl⟩
    rw [List.map_cons, TokenKind.map_kind_bare]

/-- A line of tokens of these kinds is a declaration. -/
def KindsDeclare : List TokenKind → Prop
  | [] => False
  | opener :: kinds =>
    ∃ s, Statement.ofTokens opener.bare (kinds.map TokenKind.bare) (TokenKind.bare .done) = .ok s

/-- Tokens can be moved to one place. -/
theorem exists_moved_eq_bare : ∃ r : Relocation, ∀ token : Token,
    token.moved r = token.kind.bare :=
  ⟨⟨fun _ => 0, fun _ => 0, fun _ => 0, monotone_const⟩, fun _ => rfl⟩

/-- Where the tokens stand, and which token ends the line, is not asked. -/
theorem kindsDeclare_iff (opener terminator : Token) (tokens : List Token) :
    KindsDeclare ((opener :: tokens).map Token.kind) ↔
      ∃ s, Statement.ofTokens opener tokens terminator = .ok s := by
  obtain ⟨r, hr⟩ := exists_moved_eq_bare
  have hmoved := Statement.ofTokens_moved r opener tokens terminator
  have hbare : tokens.map (Token.moved r) = (tokens.map Token.kind).map TokenKind.bare := by
    rw [List.map_map]
    exact List.map_congr_left fun token _ => hr token
  rw [hr opener, hbare] at hmoved
  show (∃ s, Statement.ofTokens _ _ _ = .ok s) ↔ _
  constructor
  · rintro ⟨s, hs⟩
    rw [ofTokens_eq_ok_iff.mpr (ofTokens_eq_ok_iff.mp hs)] at hmoved
    cases hread : Statement.ofTokens opener tokens terminator with
    | ok t => exact ⟨t, rfl⟩
    | error problem =>
      rw [hread] at hmoved
      cases hmoved
  · rintro ⟨s, hs⟩
    rw [hs] at hmoved
    exact ⟨_, ofTokens_eq_ok_iff.mpr (ofTokens_eq_ok_iff.mp hmoved)⟩

/-! ## Something for every position -/

theorem FieldClass.exists_admits (accepts : FieldClass) : ∃ value, accepts.Admits value := by
  have hname : IsName "x" := ⟨by decide, by decide⟩
  have hcontent : IsContent "x".toList := .plain (by decide) (by decide) (by decide) .nil
  have hint : FitsInt64 0 := by decide
  cases accepts with
  | ident => exact ⟨_, .ident hname⟩
  | str => exact ⟨_, .str hcontent⟩
  | identOrStr => exact ⟨_, .reference hname⟩
  | strs => exact ⟨.strs ["x"], .strs (by simp) (by simpa using hcontent)⟩
  | int => exact ⟨_, .int hint⟩
  | size => exact ⟨.size ⟨0, none⟩, .size hint⟩
  | time => exact ⟨_, .time hint⟩
  | sortKey => exact ⟨.sortKey "x", .sortKey (by decide) hcontent⟩
  | choice vocabulary =>
    obtain ⟨word, hword⟩ : ∃ word, word ∈ vocabulary := by
      cases vocabulary <;> exact ⟨_, List.mem_cons_self⟩
    exact ⟨_, .choice hword⟩

theorem exists_forall₂_admits (specs : List FieldSpec) :
    ∃ fields, List.Forall₂ FieldSpec.Admits specs fields := by
  induction specs with
  | nil => exact ⟨[], .nil⟩
  | cons spec specs ih =>
    obtain ⟨value, hvalue⟩ := spec.accepts.exists_admits
    obtain ⟨fields, hfields⟩ := ih
    exact ⟨⟨spec.name, value, ⟨0, 0⟩⟩ :: fields, .cons ⟨rfl, hvalue⟩ hfields⟩

/-- There is a text with a token for each of these positions. -/
theorem exists_completion (specs : List FieldSpec) :
    ∃ kinds text, Prints text kinds ∧ ∀ tokens : List Token, tokens.map Token.kind = kinds →
      ∃ fields, Fills specs tokens fields := by
  obtain ⟨fields, hfields⟩ := exists_forall₂_admits specs
  have hprints := prints_fields (PrintOptions.separator_ne_nil {})
    (fun c hc => isInlineBlank_of_mem_spaces hc) hfields
  refine ⟨_, _, hprints, fun tokens hk => ?_⟩
  obtain ⟨taken, hfills, -⟩ := exists_fills hfields hk
  exact ⟨taken, hfills⟩

theorem Fills.append {specs more : List FieldSpec} {head tail : List Token}
    {fields others : List Field} (h : Fills specs head fields) (hmore : Fills more tail others) :
    Fills (specs ++ more) (head ++ tail) (fields ++ others) := by
  induction h with
  | nil => exact hmore
  | cons htakes _ ih =>
    rw [List.append_assoc]
    exact .cons htakes ih

/-- Optional fields may all be left out. -/
theorem fillsChains_nil (chains : List (List FieldSpec)) :
    FillsChains chains (chains.map fun _ => 0) [] [] := by
  induction chains with
  | nil => exact .nil
  | cons chain chains ih => exact .cons (Nat.zero_le _) .nil ih

/-! ## Where the readers stop -/

theorem Keyword.chains_positional {k : Keyword} {form : Option Form} {shape : Shape}
    (h : k.shape? form = some shape) :
    ∀ chain ∈ shape.chains, ∀ spec ∈ chain, spec.accepts ≠ .strs := by
  rcases Keyword.shape?_cases h with rfl | ⟨hp, -⟩
  · simp [trackShape]
  · exact hp.chains

/-- A map that announces a form misses no required field, and no other keyword announces one. -/
theorem Keyword.Selects.of_missing {k : Keyword} {form : Option Form} {shape : Shape}
    {tokens : List Token} {terminator : Token} {problem : Problem} (h : k.Selects tokens form)
    (hshape : k.shape? form = some shape)
    (herror : takeRequired k terminator shape.required tokens = .error problem)
    (others : List Token) : k.Selects others form := by
  cases form with
  | none =>
    cases h with
    | none ht hm => exact .none ht hm
  | some form =>
    obtain ⟨head, rest, fields, rfl, hfills⟩ := h.exists_required hshape
    have hpos := (Keyword.positional_of_form hshape).required
    rw [takeRequired_complete k terminator hpos hfills rest] at herror
    cases herror

/-- The tokens split by the shape as soon as tokens for these positions stand behind them. -/
def Shape.Awaits (shape : Shape) (head : List Token) (todo : List FieldSpec) : Prop :=
  ∀ more fields, Fills todo more fields → ∃ lengths all, shape.Splits lengths (head ++ more) all

/-- The chains do not take all of the tokens: one is faulty, or one is left over. -/
inductive Stopped (k : Keyword) (chains : List (List FieldSpec)) (tokens : List Token) :
    Problem → Prop
  | fault {problem : Problem} :
      takeChains chains tokens = .error problem → Stopped k chains tokens problem
  | leftover {taken : Taken} {token : Token} {rest : List Token} :
      takeChains chains tokens = .ok taken → taken.rest = token :: rest →
        Stopped k chains tokens (token.problem (trailingCause k taken.missed token.kind))

section Stop

variable {opener terminator : Token} {k : Keyword} {form : Option Form} {shape : Shape}
  {tokens : List Token} {problem : Problem}

/-- A token that stops the chains stops them whatever stands behind it. -/
theorem Stopped.exists_token {chains : List (List FieldSpec)}
    (hs : ∀ chain ∈ chains, ∀ spec ∈ chain, spec.accepts ≠ .strs)
    (h : Stopped k chains tokens problem) :
    ∃ head token rest cause, tokens = head ++ token :: rest ∧ problem = token.problem cause ∧
      (∃ lengths fields, FillsChains chains lengths head fields) ∧
      ∀ others, takeChains chains (head ++ token :: others) = .error problem ∨
        ∃ fields missed, takeChains chains (head ++ token :: others) =
          .ok ⟨fields, missed, token :: others⟩ := by
  cases h with
  | fault herror =>
    obtain ⟨head, token, rest, cause, todos, fields, rfl, hpasses, hproblem, hstop⟩ :=
      takeChains_eq_error hs herror
    obtain ⟨lengths, hfills⟩ := hpasses.fillsChains
    refine ⟨head, token, rest, cause, rfl, hproblem, ⟨lengths, fields, hfills⟩, fun others => ?_⟩
    rw [hpasses.continues, hstop]
    exact .inl rfl
  | @leftover taken token rest hok hrest =>
    obtain ⟨head, todos, rfl, hpasses, hmissed, hmiss⟩ := takeChains_eq_ok hs hok
    obtain ⟨lengths, hfills⟩ := hpasses.fillsChains
    rw [hrest] at hmiss
    refine ⟨head, token, rest, _, by rw [hrest], rfl, ⟨lengths, _, hfills⟩, fun others => ?_⟩
    rw [hpasses.continues, takeChains_of_miss fun spec hm =>
      takeField_eq_none (hmiss spec (hmissed ▸ hm)) others]
    exact .inr ⟨_, _, rfl⟩

theorem ofShape_error_cases
    (h : Statement.ofShape opener terminator k form shape tokens = .error problem) :
    takeRequired k terminator shape.required tokens = .error problem ∨
      ∃ required rest, takeRequired k terminator shape.required tokens = .ok (required, rest) ∧
        Stopped k shape.chains rest problem := by
  rw [Statement.ofShape] at h
  rcases bind_eq_error_iff.mp h with hmissing | ⟨⟨required, rest⟩, hrequired, hbehind⟩
  · exact .inl hmissing
  · refine .inr ⟨required, rest, hrequired, ?_⟩
    rcases bind_eq_error_iff.mp hbehind with herror | ⟨taken, htaken, hleft⟩
    · exact .fault herror
    · split at hleft
      · rename_i heq
        cases hleft
        exact .leftover htaken heq
      · cases hleft

/-- The readers of a shape are stopped by a token that cannot stand there, and what stands in front
of it can be completed. -/
theorem ofShape_stalls (hshape : k.shape? form = some shape) (hselects : k.Selects tokens form)
    (h : Statement.ofShape opener terminator k form shape tokens = .error problem) :
    ∃ head rest cause todo, tokens = head ++ rest ∧
      problem = (rest.headD terminator).problem cause ∧
      (∀ others, k.Selects (head ++ others) form) ∧ shape.Awaits head todo ∧
      ∀ others s, others.head? = rest.head? →
        Statement.ofShape opener terminator k form shape (head ++ others) ≠ .ok s := by
  rcases ofShape_error_cases h with hmissing | ⟨required, behind, hrequired, hstopped⟩
  · obtain ⟨head, rest, cause, done, todo, fields, rfl, hproblem, hspecs, hfills, hstop⟩ :=
      takeRequired_stalls hmissing
    refine ⟨head, rest, cause, todo, rfl, hproblem,
      fun others => hselects.of_missing hshape hmissing _, fun more moreFields hmore => ?_,
      fun others s hsame hs => ?_⟩
    · have hall := hfills.append hmore
      rw [← hspecs] at hall
      have hsplits := Shape.Splits.parts hall (fillsChains_nil shape.chains)
      rw [List.append_nil] at hsplits
      exact ⟨_, _, hsplits⟩
    · obtain ⟨_, _, _, _, hread, -⟩ := ofShape_eq_ok_iff.mp hs
      obtain ⟨other, hother⟩ := hstop terminator others hsame
      rw [hread] at hother
      cases hother
  · obtain ⟨first, rfl, hfollow⟩ := takeRequired_follow hrequired
    obtain ⟨_, heq, hfills⟩ := takeRequired_sound hrequired
    obtain rfl := List.append_cancel_right heq
    obtain ⟨middle, token, rest, cause, rfl, hproblem, ⟨lengths, optional, hchains⟩, hstop⟩ :=
      hstopped.exists_token (Keyword.chains_positional hshape)
    refine ⟨first ++ middle, token :: rest, cause, [], by simp, hproblem, fun others => ?_,
      fun more fields hmore => ?_, fun others s hsame hs => ?_⟩
    · rw [List.append_assoc]
      exact hselects.of_required hshape hfills _
    · cases hmore
      rw [List.append_nil]
      exact ⟨lengths, _, .parts hfills hchains⟩
    · obtain ⟨tail, rfl⟩ := List.head?_eq_some_iff.mp hsame
      obtain ⟨_, _, _, _, hread, hall, -⟩ := ofShape_eq_ok_iff.mp hs
      have hlike : GoesOnLike (token :: rest) (token :: tail) := .inr rfl
      rw [List.append_assoc, hfollow _ _ (hlike.append middle)] at hread
      cases hread
      rcases hstop tail with hstop | ⟨_, _, hstop⟩ <;> rw [hstop] at hall <;> cases hall

end Stop

/-- A line with a shape is a declaration once its tokens split. -/
theorem declares_of_splits (opener terminator : Token) {k : Keyword} {form : Option Form}
    {shape : Shape} {lengths : List Nat} {tokens : List Token} {fields : List Field}
    (hopener : opener.kind = .keyword k) (hselects : k.Selects tokens form)
    (hshape : k.shape? form = some shape) (hsplits : shape.Splits lengths tokens fields) :
    ∃ s, Statement.ofTokens opener tokens terminator = .ok s := by
  obtain ⟨lengths, fields, hlong⟩ := hsplits.exists_longest hshape
  rw [ofTokens_of_selects terminator hopener hselects hshape]
  exact ⟨_, ofShape_of_splitsLongest opener terminator hshape hlong⟩

/-- A line that is refused, though not for want of a form, is refused at its opener or by the
readers of its shape. -/
theorem ofTokens_error_cases {opener terminator : Token} {tokens : List Token} {problem : Problem}
    (h : Statement.ofTokens opener tokens terminator = .error problem)
    (hform : ∀ k, problem.cause ≠ .unresolvedForm k) :
    ((∀ k, opener.kind ≠ .keyword k) ∧ ∃ cause, problem = opener.problem cause) ∨
      ∃ k form shape, opener.kind = .keyword k ∧ k.Selects tokens form ∧
        k.shape? form = some shape ∧
        Statement.ofShape opener terminator k form shape tokens = .error problem := by
  by_cases hk : ∃ k, opener.kind = .keyword k
  · obtain ⟨k, hk⟩ := hk
    have hread {form : Option Form} {shape : Shape} (hselects : k.Selects tokens form)
        (hshape : k.shape? form = some shape) := h.symm.trans
          (ofTokens_of_selects terminator hk hselects hshape)
    rcases k.shapes_cases with ⟨ht, hm, shape, -, hshape⟩ | ⟨hmap, image, tmx, hshapes, hi, ht⟩
    · exact .inr ⟨k, none, shape, hk, .none ht hm, hshape, (hread (.none ht hm) hshape).symm⟩
    · have hselects {form : Form} (ha : announcedForm? tokens = some form) :
          k.Selects tokens (some form) := (Keyword.selects_iff_of_map hmap).mpr ⟨form, rfl, ha⟩
      cases ha : announcedForm? tokens with
      | none =>
        rw [Statement.ofTokens, hk] at h
        simp only [hshapes, ha] at h
        cases h
        exact absurd rfl (hform k)
      | some form =>
        obtain ⟨shape, hshape⟩ : ∃ shape, k.shape? (some form) = some shape := by
          cases form
          exacts [⟨image, hi⟩, ⟨tmx, ht⟩]
        exact .inr ⟨k, _, shape, hk, hselects ha, hshape, (hread (hselects ha) hshape).symm⟩
  · refine .inl ⟨fun k heq => hk ⟨k, heq⟩, ?_⟩
    unfold Statement.ofTokens at h
    split at h
    · rename_i k heq
      exact absurd ⟨k, heq⟩ hk
    · cases h
      exact ⟨_, rfl⟩
    · cases h
      exact ⟨_, rfl⟩

/-- A line of tokens is refused at the first token that no declaration has there. The tokens in
front of it begin a declaration, and the rest of that declaration can be written down. -/
theorem ofTokens_refusal {opener terminator : Token} {tokens : List Token} {problem : Problem}
    (h : Statement.ofTokens opener tokens terminator = .error problem)
    (hform : ∀ k, problem.cause ≠ .unresolvedForm k) :
    ∃ before rest cause, opener :: tokens = before ++ rest ∧
      problem = (rest.headD terminator).problem cause ∧
      (∃ more text, Prints text more ∧ KindsDeclare (before.map Token.kind ++ more)) ∧
      ∀ others, others.head? = (rest.map Token.kind).head? →
        ¬ KindsDeclare (before.map Token.kind ++ others) := by
  rcases ofTokens_error_cases h hform with ⟨hopener, cause, hproblem⟩ |
    ⟨k, form, shape, hk, hselects, hshape, herror⟩
  · have hnear : Prints ([' '] ++ Keyword.near.spelling.toList) [.keyword .near] :=
      .one (List.cons_ne_nil _ _) (List.forall_mem_singleton.mpr rfl) (spells_keyword .near)
    refine ⟨[], opener :: tokens, cause, rfl, hproblem, ⟨_, _, hnear, _, rfl⟩, ?_⟩
    · intro others hsame hdeclares
      obtain ⟨tail, rfl⟩ := List.head?_eq_some_iff.mp hsame
      obtain ⟨s, hs⟩ := hdeclares
      obtain ⟨k, _, _, hk, -⟩ := exists_selects_of_ofTokens hs
      exact hopener k hk
  · obtain ⟨head, rest, cause, todo, rfl, hproblem, hforms, hawaits, hstop⟩ :=
      ofShape_stalls hshape hselects herror
    refine ⟨opener :: head, rest, cause, rfl, hproblem, ?_, ?_⟩
    · obtain ⟨more, text, hprints, hfill⟩ := exists_completion todo
      obtain ⟨fields, hfills⟩ := hfill _ (TokenKind.map_kind_bare more)
      obtain ⟨lengths, all, hsplits⟩ := hawaits _ _ hfills
      have hdeclares := (kindsDeclare_iff opener terminator _).mpr
        (declares_of_splits opener terminator hk (hforms _) hshape hsplits)
      rw [← List.cons_append, List.map_append, TokenKind.map_kind_bare] at hdeclares
      exact ⟨more, text, hprints, hdeclares⟩
    · intro others hsame hdeclares
      obtain ⟨tokens, rfl, htokens⟩ := exists_tokens_of_kinds hsame
      rw [← List.map_append, List.cons_append, kindsDeclare_iff opener terminator] at hdeclares
      obtain ⟨s, hs⟩ := hdeclares
      rw [ofTokens_of_selects terminator hk (hforms _) hshape] at hs
      exact hstop tokens s htokens hs

end ResourceDecl
