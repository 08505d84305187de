import ResourceDecl.Proofs.Statements.Problems
import ResourceDecl.Proofs.Statements.WellFormed

/-!
# Where readers come to a stop

Every position looks at one token only. So what a reader has taken when it stops does not depend on
the tokens behind, and neither does the reason why it stops: the token that stands there is refused
for what it is, whatever follows it.

* `takeField_eq_none`, `takeField_eq_error`: a position looks at the token that stands next.
* `takeChains_stalls`: chains take the tokens in front of the stop (`Passes`), and then no
  open position finds a field, or the token next to it is faulty (`Stalls`).
* `takeRequired_stalls`: required fields are filled, or stop at the first position that is not.
-/

namespace ResourceDecl

/-! ## One position -/

theorem takeField_eq_none {spec : FieldSpec} {token : Token} {tokens : List Token}
    (h : takeField spec (token :: tokens) = .ok none) (others : List Token) :
    takeField spec (token :: others) = .ok none := by
  unfold takeField at h ⊢
  by_cases hs : spec.accepts = .strs
  · simp only [hs, if_true, takeStrings, Except.ok.injEq] at h ⊢
    by_cases hstring : token.isString
    · simp [hstring] at h
    · simp [hstring]
  · rw [if_neg hs] at h ⊢
    dsimp only at h ⊢
    split at h
    · cases h
    · rfl
    · cases h

theorem takeField_eq_error {spec : FieldSpec} {tokens : List Token} {problem : Problem}
    (h : takeField spec tokens = .error problem) :
    ∃ token rest cause, tokens = token :: rest ∧ problem = token.problem cause ∧
      ∀ others, takeField spec (token :: others) = .error problem := by
  unfold takeField at h ⊢
  by_cases hs : spec.accepts = .strs
  · simp [hs] at h
  · rw [if_neg hs] at h
    cases tokens with
    | nil => cases h
    | cons token rest =>
      dsimp only at h
      split at h
      · cases h
      · cases h
      · rename_i cause hcause
        cases h
        refine ⟨token, rest, cause, rfl, rfl, fun others => ?_⟩
        rw [if_neg hs]
        simp only [hcause]

theorem takeField_eq_some {spec : FieldSpec} {tokens rest : List Token} {field : Field}
    (hs : spec.accepts ≠ .strs) (h : takeField spec tokens = .ok (some (field, rest))) :
    ∃ token, tokens = token :: rest ∧ spec.Takes [token] field ∧
      ∀ others, takeField spec (token :: others) = .ok (some (field, others)) := by
  obtain ⟨head, rfl, ht⟩ := takeField_sound h
  cases ht with
  | one ha => exact ⟨_, rfl, .one ha, takeField_one ha⟩
  | strings hlist => exact absurd hlist hs

/-! ## One chain -/

/-- More fields in front of those that were taken. -/
def Taken.behind (fields : List Field) (taken : Taken) : Taken :=
  { taken with fields := fields ++ taken.fields }

/-- A chain takes the tokens in front of its stop, whatever stands behind them, and there the next
position finds nothing or a faulty token. -/
theorem takeChain_stalls {chain : List FieldSpec} (hs : ∀ spec ∈ chain, spec.accepts ≠ .strs)
    (tokens : List Token) :
    ∃ head rest todo fields, tokens = head ++ rest ∧ todo <:+ chain ∧
      (head = [] → todo = chain ∧ fields = []) ∧ (fields = [] → head = []) ∧
      (∀ others, takeChain chain (head ++ others) =
        (takeChain todo others).map (Taken.behind fields)) ∧
      ((∀ spec ∈ todo.take 1, takeField spec rest = .ok none) ∨
        ∃ token tail cause, rest = token :: tail ∧
          ∀ others, takeChain todo (token :: others) = .error (token.problem cause)) := by
  have hstart (chain : List FieldSpec) (others : List Token) :
      takeChain chain ([] ++ others) = (takeChain chain others).map (Taken.behind []) := by
    rw [List.nil_append]
    cases takeChain chain others <;> rfl
  induction chain generalizing tokens with
  | nil => exact ⟨[], tokens, [], [], rfl, List.suffix_rfl, by simp, by simp, hstart [], by simp⟩
  | cons spec chain ih =>
    obtain ⟨hspec, hchain⟩ := List.forall_mem_cons.mp hs
    cases hf : takeField spec tokens with
    | error problem =>
      obtain ⟨token, tail, cause, rfl, rfl, herror⟩ := takeField_eq_error hf
      refine ⟨[], _, spec :: chain, [], rfl, List.suffix_rfl, by simp, by simp, hstart _,
        .inr ⟨token, tail, cause, rfl, fun others => ?_⟩⟩
      rw [takeChain, herror others]
      rfl
    | ok found =>
      rcases found with _ | ⟨field, middle⟩
      · refine ⟨[], tokens, spec :: chain, [], rfl, List.suffix_rfl, by simp, by simp, hstart _,
          .inl ?_⟩
        simpa using hf
      · obtain ⟨token, rfl, -, htake⟩ := takeField_eq_some hspec hf
        obtain ⟨head, rest, todo, fields, rfl, hsuffix, -, -, hpass, hstop⟩ := ih hchain middle
        refine ⟨token :: head, rest, todo, field :: fields, rfl,
          hsuffix.trans (List.suffix_cons _ _), by simp, by simp, fun others => ?_, hstop⟩
        rw [List.cons_append, takeChain, htake]
        simp only [bind, Except.bind]
        rw [hpass others]
        cases takeChain todo others <;> rfl

theorem takeChain_of_miss {todo : List FieldSpec} {rest : List Token}
    (h : ∀ spec ∈ todo.take 1, takeField spec rest = .ok none) :
    takeChain todo rest = .ok ⟨[], todo.take 1, rest⟩ := by
  cases todo with
  | nil => rfl
  | cons spec todo =>
    rw [takeChain, h spec (by simp)]
    rfl

/-! ## Chains one behind the other -/

/-- What remains of chains: some are passed over, and one may have been taken in part. -/
inductive Remains : List (List FieldSpec) → List (List FieldSpec) → Prop
  | refl (chains : List (List FieldSpec)) : Remains chains chains
  | part {chain todo : List FieldSpec} {chains : List (List FieldSpec)} :
      todo <:+ chain → Remains (chain :: chains) (todo :: chains)
  | later {chain : List FieldSpec} {chains todos : List (List FieldSpec)} :
      Remains chains todos → Remains (chain :: chains) todos

/-- No open position finds a field there, or the token that stands there is refused for what it
is. -/
inductive Stalls (todos : List (List FieldSpec)) : List Token → Prop
  | miss {rest : List Token} :
      (∀ spec ∈ todos.flatMap (List.take 1), takeField spec rest = .ok none) → Stalls todos rest
  | fault {token : Token} {rest : List Token} {cause : Cause} :
      (∀ others, takeChains todos (token :: others) = .error (token.problem cause)) →
        Stalls todos (token :: rest)

/-- The chains take these tokens as these fields, whatever stands behind them, and then go on with
what remains of them. -/
structure Passes (chains todos : List (List FieldSpec)) (head : List Token)
    (fields : List Field) : Prop where
  remains : Remains chains todos
  start : head = [] → todos = chains ∧ fields = []
  taken : fields = [] → head = []
  continues : ∀ others, takeChains chains (head ++ others) =
    (takeChains todos others).map (Taken.behind fields)

theorem Passes.refl (chains : List (List FieldSpec)) : Passes chains chains [] [] where
  remains := .refl chains
  start _ := ⟨rfl, rfl⟩
  taken _ := rfl
  continues others := by
    rw [List.nil_append]
    cases takeChains chains others <;> rfl

section Cons

variable {chain todo : List FieldSpec} {chains todos : List (List FieldSpec)} {head : List Token}
  {fields : List Field}
  (hpass : ∀ others, takeChain chain (head ++ others) =
    (takeChain todo others).map (Taken.behind fields))

include hpass

/-- As long as the later chains take nothing, the first one may go on. -/
theorem Passes.part (hsuffix : todo <:+ chain) (hstart : head = [] → todo = chain ∧ fields = [])
    (htaken : fields = [] → head = []) :
    Passes (chain :: chains) (todo :: chains) head fields := by
  refine ⟨.part hsuffix, fun hnil => ?_, htaken, fun others => ?_⟩
  · obtain ⟨rfl, rfl⟩ := hstart hnil
    exact ⟨rfl, rfl⟩
  · rw [takeChains, takeChains, hpass others]
    cases takeChain todo others with
    | error problem => rfl
    | ok first =>
      simp only [Except.map, bind, Except.bind, Taken.behind]
      cases takeChains chains first.rest with
      | error problem => rfl
      | ok more => simp [pure, Except.pure]

/-- Once the later chains take a token that the first one missed, the first one is passed over. -/
theorem Passes.later {token : Token} {tail rest : List Token} {more : List Field}
    (hmiss : ∀ spec ∈ todo.take 1, takeField spec (token :: rest) = .ok none)
    (hpasses : Passes chains todos (token :: tail) more) :
    Passes (chain :: chains) todos (head ++ token :: tail) (fields ++ more) := by
  have hmore : more ≠ [] := fun hnil => by cases hpasses.taken hnil
  refine ⟨.later hpasses.remains, by simp, fun hnil => ?_, fun others => ?_⟩
  · exact absurd (List.append_eq_nil_iff.mp hnil).2 hmore
  · have hfirst : takeChain todo (token :: tail ++ others) =
        .ok ⟨[], todo.take 1, token :: tail ++ others⟩ :=
      takeChain_of_miss fun spec hm => takeField_eq_none (hmiss spec hm) _
    rw [List.append_assoc, takeChains, hpass, hfirst]
    simp only [Except.map, bind, Except.bind, Taken.behind]
    rw [hpasses.continues others]
    cases takeChains todos others with
    | error problem => rfl
    | ok last => simp [Except.map, Taken.behind, pure, Except.pure, hmore]

end Cons

theorem Stalls.cons {todo : List FieldSpec} {chains : List (List FieldSpec)} {rest : List Token}
    (hmiss : ∀ spec ∈ todo.take 1, takeField spec rest = .ok none) (h : Stalls chains rest) :
    Stalls (todo :: chains) rest := by
  cases h with
  | miss hothers =>
    refine .miss ?_
    rw [List.flatMap_cons]
    exact List.forall_mem_append.mpr ⟨hmiss, hothers⟩
  | @fault token _ cause hfault =>
    refine @Stalls.fault _ token _ cause fun others => ?_
    rw [takeChains, takeChain_of_miss fun spec hm => takeField_eq_none (hmiss spec hm) others]
    simp only [bind, Except.bind, hfault others]

/-- Chains take the tokens in front of their stop, and there they stall. -/
theorem takeChains_stalls {chains : List (List FieldSpec)}
    (hs : ∀ chain ∈ chains, ∀ spec ∈ chain, spec.accepts ≠ .strs) (tokens : List Token) :
    ∃ head rest todos fields, tokens = head ++ rest ∧ Passes chains todos head fields ∧
      Stalls todos rest := by
  induction chains generalizing tokens with
  | nil => exact ⟨[], tokens, [], [], rfl, .refl [], .miss (by simp)⟩
  | cons chain chains ih =>
    obtain ⟨hchain, hchains⟩ := List.forall_mem_cons.mp hs
    obtain ⟨head, rest, todo, fields, rfl, hsuffix, hstart, htaken, hpass, hstop⟩ :=
      takeChain_stalls hchain tokens
    have hpart : Passes (chain :: chains) (todo :: chains) head fields :=
      .part hpass hsuffix hstart htaken
    rcases hstop with hmiss | ⟨token, tail, cause, rfl, hfault⟩
    · obtain ⟨more, rest, todos, moreFields, rfl, hpasses, hstalls⟩ := ih hchains rest
      cases more with
      | nil =>
        obtain ⟨rfl, -⟩ := hpasses.start rfl
        exact ⟨head, rest, _, fields, by simp, hpart, hstalls.cons hmiss⟩
      | cons token tail =>
        exact ⟨head ++ token :: tail, rest, todos, fields ++ moreFields, by simp,
          .later hpass hmiss hpasses, hstalls⟩
    · refine ⟨head, _, _, fields, rfl, hpart, @Stalls.fault _ token _ cause fun others => ?_⟩
      rw [takeChains, hfault others]
      rfl

theorem takeChains_of_miss {todos : List (List FieldSpec)} {rest : List Token}
    (h : ∀ spec ∈ todos.flatMap (List.take 1), takeField spec rest = .ok none) :
    takeChains todos rest = .ok ⟨[], todos.flatMap (List.take 1), rest⟩ := by
  induction todos with
  | nil => rfl
  | cons todo todos ih =>
    rw [List.flatMap_cons] at h
    obtain ⟨htodo, htodos⟩ := List.forall_mem_append.mp h
    rw [takeChains, takeChain_of_miss htodo]
    simp only [bind, Except.bind, ih htodos]
    rfl

/-- What was taken is taken as well without the tokens behind, and the positions that were missed
are those that are next in what remains of the chains. -/
theorem takeChains_eq_ok {chains : List (List FieldSpec)}
    (hs : ∀ chain ∈ chains, ∀ spec ∈ chain, spec.accepts ≠ .strs) {tokens : List Token}
    {taken : Taken} (h : takeChains chains tokens = .ok taken) :
    ∃ head todos, tokens = head ++ taken.rest ∧ Passes chains todos head taken.fields ∧
      taken.missed = todos.flatMap (List.take 1) ∧
      ∀ spec ∈ taken.missed, takeField spec taken.rest = .ok none := by
  obtain ⟨head, rest, todos, fields, rfl, hpasses, hstalls⟩ := takeChains_stalls hs tokens
  rw [hpasses.continues] at h
  cases hstalls with
  | miss hmiss =>
    rw [takeChains_of_miss hmiss] at h
    cases h
    exact ⟨head, todos, rfl, by simpa [Taken.behind] using hpasses, rfl, hmiss⟩
  | fault hfault =>
    rw [hfault] at h
    cases h

theorem takeChains_eq_error {chains : List (List FieldSpec)}
    (hs : ∀ chain ∈ chains, ∀ spec ∈ chain, spec.accepts ≠ .strs) {tokens : List Token}
    {problem : Problem} (h : takeChains chains tokens = .error problem) :
    ∃ head token rest cause todos fields, tokens = head ++ token :: rest ∧
      Passes chains todos head fields ∧ problem = token.problem cause ∧
      ∀ others, takeChains todos (token :: others) = .error problem := by
  obtain ⟨head, rest, todos, fields, rfl, hpasses, hstalls⟩ := takeChains_stalls hs tokens
  rw [hpasses.continues] at h
  cases hstalls with
  | miss hmiss =>
    rw [takeChains_of_miss hmiss] at h
    cases h
  | @fault token rest cause hfault =>
    rw [hfault] at h
    cases h
    exact ⟨head, token, rest, cause, todos, fields, rfl, hpasses, rfl, hfault⟩

/-- The tokens that were passed fill a prefix of each chain. -/
theorem Passes.fillsChains {chains todos : List (List FieldSpec)} {head : List Token}
    {fields : List Field} (h : Passes chains todos head fields) :
    ∃ lengths, FillsChains chains lengths head fields := by
  have hwhole := h.continues []
  rw [takeChains_of_miss fun spec _ => takeField_nil spec] at hwhole
  obtain ⟨lengths, taken, htaken, hfills⟩ := takeChains_sound hwhole
  obtain rfl : head = taken := List.append_cancel_right htaken
  exact ⟨lengths, by simpa [Taken.behind] using hfills⟩

/-! ## Required fields -/

/-- A text may stand in the place of the rest of a line if it is empty or has the same next
token. -/
def GoesOnLike (rest others : List Token) : Prop :=
  others = [] ∨ others.head? = rest.head?

theorem GoesOnLike.append {rest others : List Token} (h : GoesOnLike rest others)
    (head : List Token) : GoesOnLike (head ++ rest) (head ++ others) := by
  cases head with
  | nil => exact h
  | cons token head => exact .inr rfl

/-- A list of strings ends where no string stands. -/
theorem takeStrings_follow {field : FieldName} {tokens rest : List Token} {taken : Field}
    (h : takeStrings field tokens = some (taken, rest)) :
    ∃ head, tokens = head ++ rest ∧ ∀ others, GoesOnLike rest others →
      takeStrings field (head ++ others) = some (taken, others) := by
  have hsplit := List.takeWhile_append_dropWhile (p := Token.isString) (l := tokens)
  have hall := List.all_eq_true.mp (List.all_takeWhile (p := Token.isString) (l := tokens))
  have hstop := List.head?_dropWhile_not Token.isString tokens
  unfold takeStrings at h ⊢
  split at h
  · cases h
  · rename_i first more heq
    cases h
    rw [heq] at hsplit hall
    refine ⟨first :: more, hsplit.symm, fun others hlike => ?_⟩
    have hend : others.takeWhile Token.isString = [] ∧
        others.dropWhile Token.isString = others := by
      cases others with
      | nil => exact ⟨rfl, rfl⟩
      | cons token others =>
        have hhead := hlike.resolve_left (List.cons_ne_nil _ _)
        rw [← hhead] at hstop
        have hnot : token.isString = false := by simpa using hstop
        exact ⟨by simp [hnot], by simp [hnot]⟩
    rw [List.takeWhile_append_of_pos hall, List.dropWhile_append_of_pos hall, hend.1, hend.2,
      List.append_nil]

theorem takeField_follow {spec : FieldSpec} {tokens rest : List Token} {field : Field}
    (h : takeField spec tokens = .ok (some (field, rest))) :
    ∃ head, tokens = head ++ rest ∧ spec.Takes head field ∧ ∀ others, GoesOnLike rest others →
      takeField spec (head ++ others) = .ok (some (field, others)) := by
  by_cases hs : spec.accepts = .strs
  · obtain ⟨head, rfl, htakes⟩ := takeField_sound h
    have hlist (tokens : List Token) :
        takeField spec tokens = .ok (takeStrings spec.name tokens) := by
      simp [takeField, hs]
    rw [hlist] at h
    obtain ⟨other, heq, hfollow⟩ := takeStrings_follow (Except.ok.inj h)
    obtain rfl := List.append_cancel_right heq
    refine ⟨head, rfl, htakes, fun others hlike => ?_⟩
    rw [hlist, hfollow others hlike]
  · obtain ⟨token, rfl, htakes, hfollow⟩ := takeField_eq_some hs h
    exact ⟨[token], rfl, htakes, fun others _ => hfollow others⟩

theorem takeRequired_follow {k : Keyword} {terminator : Token} {specs : List FieldSpec}
    {tokens rest : List Token} {fields : List Field}
    (h : takeRequired k terminator specs tokens = .ok (fields, rest)) :
    ∃ head, tokens = head ++ rest ∧ ∀ (last : Token) (others : List Token),
      GoesOnLike rest others →
        takeRequired k last specs (head ++ others) = .ok (fields, others) := by
  induction specs generalizing tokens fields with
  | nil =>
    cases h
    exact ⟨[], rfl, fun _ _ _ => rfl⟩
  | cons spec specs ih =>
    rw [takeRequired] at h
    obtain ⟨found, hf, h⟩ := bind_eq_ok_iff.mp h
    rcases found with _ | ⟨field, middle⟩
    · cases h
    · obtain ⟨⟨more, _⟩, hm, h⟩ := bind_eq_ok_iff.mp h
      cases h
      obtain ⟨head, rfl, -, hfollow⟩ := takeField_follow hf
      obtain ⟨tail, rfl, hmore⟩ := ih hm
      refine ⟨head ++ tail, (List.append_assoc ..).symm, fun last others hlike => ?_⟩
      rw [List.append_assoc, takeRequired, hfollow _ (hlike.append tail)]
      simp only [bind, Except.bind, hmore last others hlike]
      rfl

/-- Required fields that cannot be filled are filled up to the token that is refused, and it is
refused whatever stands behind it. -/
theorem takeRequired_stalls {k : Keyword} {terminator : Token} {specs : List FieldSpec}
    {tokens : List Token} {problem : Problem}
    (h : takeRequired k terminator specs tokens = .error problem) :
    ∃ head rest cause done todo fields, tokens = head ++ rest ∧
      problem = (rest.headD terminator).problem cause ∧ specs = done ++ todo ∧
      Fills done head fields ∧ ∀ (last : Token) (others : List Token), others.head? = rest.head? →
        ∃ other, takeRequired k last specs (head ++ others) = .error other := by
  induction specs generalizing tokens with
  | nil => cases h
  | cons spec specs ih =>
    rw [takeRequired] at h
    rcases bind_eq_error_iff.mp h with hf | ⟨found, hf, h⟩
    · obtain ⟨token, rest, cause, rfl, rfl, hfault⟩ := takeField_eq_error hf
      refine ⟨[], _, cause, [], spec :: specs, [], rfl, rfl, rfl, .nil, fun last others hsame => ?_⟩
      obtain ⟨tail, rfl⟩ := List.head?_eq_some_iff.mp hsame
      refine ⟨token.problem cause, ?_⟩
      rw [List.nil_append, takeRequired, hfault tail]
      rfl
    · rcases found with _ | ⟨field, middle⟩
      · cases h
        refine ⟨[], tokens, _, [], spec :: specs, [], rfl, rfl, rfl, .nil,
          fun last others hsame => ?_⟩
        have hnone : takeField spec others = .ok none := by
          cases tokens with
          | nil =>
            rw [List.head?_eq_none_iff.mp hsame]
            exact takeField_nil spec
          | cons token rest =>
            obtain ⟨tail, rfl⟩ := List.head?_eq_some_iff.mp hsame
            exact takeField_eq_none hf tail
        rw [List.nil_append, takeRequired, hnone]
        exact ⟨_, rfl⟩
      · obtain ⟨head, rfl, htakes, hfollow⟩ := takeField_follow hf
        rcases bind_eq_error_iff.mp h with hmore | ⟨_, _, h⟩
        · obtain ⟨tail, rest, cause, done, todo, fields, rfl, rfl, rfl, hfills, hstall⟩ := ih hmore
          refine ⟨head ++ tail, rest, cause, spec :: done, todo, field :: fields,
            (List.append_assoc ..).symm, rfl, rfl, .cons htakes hfills, fun last others hsame => ?_⟩
          obtain ⟨other, hother⟩ := hstall last others hsame
          have hlike : GoesOnLike rest others := .inr hsame
          refine ⟨other, ?_⟩
          rw [List.append_assoc, takeRequired, hfollow _ (hlike.append tail)]
          simp only [bind, Except.bind, hother]
        · cases h

/-! ## Forms -/

theorem Keyword.positional_of_form {k : Keyword} {form : Form} {shape : Shape}
    (h : k.shape? (some form) = some shape) : shape.Positional := by
  revert h
  cases k <;> cases form <;> rintro ⟨⟩ <;> decide

/-- The form of a line is settled once its required fields are filled. -/
theorem Keyword.Selects.of_required {k : Keyword} {form : Option Form} {shape : Shape}
    {head rest : List Token} {fields : List Field} (h : k.Selects (head ++ rest) form)
    (hshape : k.shape? form = some shape) (hfills : Fills shape.required head fields)
    (others : List Token) : k.Selects (head ++ others) form := by
  cases form with
  | none =>
    generalize head ++ rest = tokens at h
    cases h with
    | none ht hm => exact .none ht hm
  | some form =>
    obtain ⟨-, fileName, third, hrequired, -⟩ := Keyword.required_of_form hshape
    have hlength : head.length = 3 := by
      rw [hfills.length_eq (Keyword.positional_of_form hshape).required, hrequired]
      rfl
    obtain ⟨t₀, t₁, t₂, rfl⟩ := List.length_eq_three.mp hlength
    cases h with
    | row hk hrow => exact .row hk hrow

/-- A line that announces a form has what the form requires. -/
theorem Keyword.Selects.exists_required {k : Keyword} {form : Form} {shape : Shape}
    {tokens : List Token} (h : k.Selects tokens (some form))
    (hshape : k.shape? (some form) = some shape) :
    ∃ head rest fields, tokens = head ++ rest ∧ Fills shape.required head fields := by
  obtain ⟨-, fileName, thirdSpec, hrequired, hthird⟩ := Keyword.required_of_form hshape
  cases h with
  | @row t₀ t₁ t₂ rest _ hk hrow =>
    obtain ⟨⟨name, hname⟩, ⟨file, hfile⟩, third, hvalue⟩ :
        (∃ value, FieldClass.ident.Accepts t₀.kind value) ∧
          (∃ value, FieldClass.str.Accepts t₁.kind value) ∧
          ∃ value, thirdSpec.accepts.Accepts t₂.kind value := by
      generalize t₀.kind = opening at hrow ⊢
      generalize t₁.kind = file at hrow ⊢
      generalize t₂.kind = third at hrow ⊢
      cases hrow with
      | reference hfile =>
        obtain ⟨-, hthird⟩ | ⟨⟨⟩, -⟩ := hthird
        rw [hthird]
        exact ⟨⟨_, .ident _⟩, ⟨_, .str hfile⟩, _, .reference _⟩
      | layer hfile hlayer _ =>
        obtain ⟨⟨⟩, -⟩ | ⟨-, hthird⟩ := hthird
        rw [hthird]
        exact ⟨⟨_, .ident _⟩, ⟨_, .str hfile⟩, _, .str hlayer⟩
      | quotedReference hfile htileset _ =>
        obtain ⟨-, hthird⟩ | ⟨⟨⟩, -⟩ := hthird
        rw [hthird]
        exact ⟨⟨_, .ident _⟩, ⟨_, .str hfile⟩, _, .quotedReference htileset⟩
    have hfills : Fills [.resourceName, ⟨fileName, .str⟩, thirdSpec] [t₀, t₁, t₂] _ :=
      .cons_one hname (.cons_one hfile (.cons_one hvalue .nil))
    rw [← hrequired] at hfills
    exact ⟨[t₀, t₁, t₂], rest, _, rfl, hfills⟩

end ResourceDecl
