import ResourceDecl.Proofs.Grammar.Readers

/-!
# Greed loses nothing

The readers take fields greedily and never give one back. The grammar asks for any split of the
tokens. The two agree on every shape of the table:

* a shape with at most one chain leaves no choice, since every position takes one token
  (`Shape.Splits.lengths_eq`);
* the list of strings of `XGM2` is the last position, so it may take all that is left;
* the two chains of `OBJECTS` compete for a sort key, and the first one may always have it, since
  the second takes any strings (`refillAfterSortKey`).

`ofTokens_eq_ok_iff` is the result: a line is read as a declaration exactly if the grammar gives
that declaration to it.
-/

namespace ResourceDecl

/-! ## The shapes of the table -/

/-- Every position takes one token. -/
def Shape.Positional (shape : Shape) : Prop :=
  ∀ spec ∈ shape.fields, spec.accepts ≠ .strs

instance (shape : Shape) : Decidable shape.Positional :=
  inferInstanceAs (Decidable (∀ spec ∈ shape.fields, _))

/-- The shape of the one keyword with a list of strings. -/
def trackShape : Shape :=
  ⟨[.resourceName, ⟨.file, .strs⟩], []⟩

/-- The first chain of `OBJECTS`. -/
def sortChain : List FieldSpec :=
  [⟨.sortBy, .sortKey⟩]

/-- The second chain of `OBJECTS`. -/
def typeChain : List FieldSpec :=
  [⟨.declType, .str⟩, ⟨.typeFilter, .str⟩]

theorem Keyword.shape?_cases {k : Keyword} {form : Option Form} {shape : Shape}
    (h : k.shape? form = some shape) :
    shape = trackShape ∨
      shape.Positional ∧ (shape.chains.length ≤ 1 ∨ shape.chains = [sortChain, typeChain]) := by
  revert h
  cases k <;> rcases form with _ | _ | _ <;> rintro ⟨⟩ <;> decide

/-! ## Lengths of splits -/

theorem Fills.length_eq {specs : List FieldSpec} {tokens : List Token} {fields : List Field}
    (h : Fills specs tokens fields) (hs : ∀ spec ∈ specs, spec.accepts ≠ .strs) :
    tokens.length = specs.length := by
  induction h with
  | nil => rfl
  | cons ht _ ih =>
    cases ht with
    | one _ =>
      rw [List.singleton_append, List.length_cons, List.length_cons,
        ih fun spec hm => hs spec (List.mem_cons_of_mem _ hm)]
    | strings hlist => exact absurd hlist (hs _ List.mem_cons_self)

/-- With at most one chain, the length of the text says how long its part is. -/
theorem FillsChains.lengths_eq {chains : List (List FieldSpec)} {lengths others : List Nat}
    {tokens otherTokens : List Token} {fields otherFields : List Field}
    (h : FillsChains chains lengths tokens fields)
    (ho : FillsChains chains others otherTokens otherFields)
    (hsame : otherTokens.length = tokens.length)
    (hs : ∀ chain ∈ chains, ∀ spec ∈ chain, spec.accepts ≠ .strs) (hone : chains.length ≤ 1) :
    others = lengths := by
  have hlength {chain : List FieldSpec} {length : Nat} {tokens : List Token} {fields : List Field}
      (hm : chain ∈ chains) (hle : length ≤ chain.length)
      (hf : Fills (chain.take length) tokens fields) : tokens.length = length := by
    have hfills := hf.length_eq fun spec ht => hs chain hm spec (List.mem_of_mem_take ht)
    rwa [List.length_take, Nat.min_eq_left hle] at hfills
  cases h with
  | nil =>
    cases ho
    rfl
  | cons hle hf hc =>
    cases ho with
    | cons hle' hf' hc' =>
      have hnone := Nat.le_of_lt_succ hone
      obtain rfl := List.eq_nil_of_length_eq_zero (Nat.le_zero.mp hnone)
      cases hc
      cases hc'
      have htaken := hlength List.mem_cons_self hle hf
      have htaken' := hlength List.mem_cons_self hle' hf'
      rw [List.append_nil, List.append_nil, htaken, htaken'] at hsame
      rw [hsame]

namespace Shape

variable {shape : Shape} {lengths others : List Nat} {tokens : List Token}
  {fields otherFields : List Field}

theorem Positional.required (h : shape.Positional) :
    ∀ spec ∈ shape.required, spec.accepts ≠ .strs :=
  fun spec hm => h spec (List.mem_append_left _ hm)

theorem Positional.chains (h : shape.Positional) :
    ∀ chain ∈ shape.chains, ∀ spec ∈ chain, spec.accepts ≠ .strs :=
  fun _ hc spec hm => h spec (List.mem_append_right _ (List.mem_flatten.mpr ⟨_, hc, hm⟩))

/-- With at most one chain there is one way to split. -/
theorem Splits.lengths_eq (h : shape.Splits lengths tokens fields)
    (ho : shape.Splits others tokens otherFields) (hp : shape.Positional)
    (hone : shape.chains.length ≤ 1) : others = lengths := by
  cases h with
  | @parts head tail _ _ hr hc =>
    generalize hwhole : head ++ tail = tokens at ho
    cases ho with
    | @parts otherHead otherTail _ _ hr' hc' =>
      have hhead := hr.length_eq hp.required
      have hhead' := hr'.length_eq hp.required
      have hlength := congrArg List.length hwhole
      rw [List.length_append, List.length_append] at hlength
      exact hc.lengths_eq hc' (by omega) hp.chains hone

theorem Splits.longest_of_one_chain (h : shape.Splits lengths tokens fields)
    (hp : shape.Positional) (hone : shape.chains.length ≤ 1) :
    shape.SplitsLongest lengths tokens fields :=
  ⟨h, fun ho => .inl (h.lengths_eq ho hp hone)⟩

/-- Without chains there is nothing to choose. -/
theorem Splits.longest_of_no_chain (h : shape.Splits lengths tokens fields)
    (hnone : shape.chains = []) : shape.SplitsLongest lengths tokens fields := by
  have hnil : ∀ {lengths tokens fields}, shape.Splits lengths tokens fields → lengths = [] := by
    rintro lengths tokens fields ⟨-, hc⟩
    rw [hnone] at hc
    cases hc
    rfl
  exact ⟨h, fun ho => .inl ((hnil ho).trans (hnil h).symm)⟩

end Shape

/-! ## Two chains -/

/-- Positions for strings take any strings, one each. -/
theorem exists_fills_strings_iff {specs : List FieldSpec} {tokens : List Token}
    (hs : ∀ spec ∈ specs, spec.accepts = .str) :
    (∃ fields, Fills specs tokens fields) ↔
      tokens.length = specs.length ∧ ∀ token ∈ tokens, token.isString := by
  induction specs generalizing tokens with
  | nil =>
    constructor
    · rintro ⟨_, ⟨⟩⟩
      simp
    · rintro ⟨hlen, -⟩
      rw [List.eq_nil_of_length_eq_zero hlen]
      exact ⟨_, .nil⟩
  | cons spec specs ih =>
    obtain ⟨hspec, hspecs⟩ := List.forall_mem_cons.mp hs
    constructor
    · rintro ⟨_, _ | ⟨ht, hf⟩⟩
      obtain ⟨hlen, hall⟩ := (ih hspecs).mp ⟨_, hf⟩
      cases ht with
      | strings hlist => rw [hspec] at hlist; cases hlist
      | one ha =>
        rw [hspec] at ha
        cases ha with
        | str hc =>
          refine ⟨by simp [hlen], List.forall_mem_cons.mpr ⟨?_, hall⟩⟩
          rw [Token.isString, hc]
          rfl
    · rintro ⟨hlen, hall⟩
      cases tokens with
      | nil => cases hlen
      | cons token tokens =>
        obtain ⟨htoken, htokens⟩ := List.forall_mem_cons.mp hall
        obtain ⟨content, hc⟩ := Option.isSome_iff_exists.mp htoken
        obtain ⟨fields, hf⟩ := (ih hspecs).mpr ⟨Nat.succ.inj hlen, htokens⟩
        exact ⟨_, .cons_one (hspec ▸ FieldClass.Accepts.str hc) hf⟩

theorem accepts_of_mem_typeChain {length : Nat} :
    ∀ spec ∈ typeChain.take length, spec.accepts = .str := by
  have hall : ∀ spec ∈ typeChain, spec.accepts = .str := by decide
  exact fun spec hm => hall spec (List.mem_of_mem_take hm)

/-- The first chain takes a sort key or nothing. -/
theorem exists_fills_sortChain_iff {length : Nat} (hle : length ≤ 1) {tokens : List Token} :
    (∃ fields, Fills (sortChain.take length) tokens fields) ↔
      length = 0 ∧ tokens = [] ∨
        length = 1 ∧ ∃ token key, tokens = [token] ∧ token.kind = .sortKey key := by
  match length, hle with
  | 0, _ =>
    constructor
    · rintro ⟨_, ⟨⟩⟩
      exact .inl ⟨rfl, rfl⟩
    · rintro (⟨-, rfl⟩ | ⟨⟨⟩, -⟩)
      exact ⟨_, .nil⟩
  | 1, _ =>
    constructor
    · rintro ⟨_, _ | ⟨_ | hlist, ⟨⟩⟩⟩
      · rename_i token _ ha
        generalize hk : token.kind = kind at ha
        cases ha
        exact .inr ⟨rfl, token, _, rfl, hk⟩
      · cases hlist
    · rintro (⟨⟨⟩, -⟩ | ⟨-, token, key, rfl, hk⟩)
      exact ⟨_, .cons_one (hk ▸ FieldClass.Accepts.sortKey key) .nil⟩

/-- A sort key or nothing, then up to two strings. -/
def SortedThenTyped (lengths : List Nat) (tokens : List Token) : Prop :=
  ∃ a b, lengths = [a, b] ∧ a ≤ 1 ∧ b ≤ 2 ∧ tokens.length = a + b ∧
    (a = 1 → ∃ token key rest, tokens = token :: rest ∧ token.kind = .sortKey key) ∧
    ∀ token ∈ tokens, token.isString

/-- The second chain can spare a sort key that stands first. -/
theorem SortedThenTyped.moveSortKey {b : Nat} {token : Token} {key : String} {rest : List Token}
    (h : SortedThenTyped [0, b] (token :: rest)) (hk : token.kind = .sortKey key) :
    SortedThenTyped [1, b - 1] (token :: rest) := by
  obtain ⟨_, _, ⟨⟩, -, hb, hlen, -, hall⟩ := h
  refine ⟨1, b - 1, rfl, Nat.le_refl _, by omega, ?_, fun _ => ⟨token, key, rest, rfl, hk⟩, hall⟩
  rw [List.length_cons] at hlen ⊢
  omega

/-- What the two chains may take. -/
theorem exists_fillsChains_objects_iff {lengths : List Nat} {tokens : List Token} :
    (∃ fields, FillsChains [sortChain, typeChain] lengths tokens fields) ↔
      SortedThenTyped lengths tokens := by
  constructor
  · rintro ⟨fields, h⟩
    obtain _ | ⟨ha, hfirst, h⟩ := h
    obtain _ | ⟨hb, hsecond, h⟩ := h
    cases h
    obtain ⟨hlen, hall⟩ :=
      (exists_fills_strings_iff accepts_of_mem_typeChain).mp ⟨_, hsecond⟩
    rw [List.length_take, Nat.min_eq_left hb] at hlen
    rw [List.append_nil]
    obtain ⟨rfl, rfl⟩ | ⟨rfl, token, key, rfl, hk⟩ := (exists_fills_sortChain_iff ha).mp ⟨_, hfirst⟩
    · exact ⟨_, _, rfl, ha, hb, by simp [hlen], by simp, hall⟩
    · refine ⟨_, _, rfl, ha, hb, by simp [hlen, Nat.add_comm],
        fun _ => ⟨token, key, _, rfl, hk⟩, ?_⟩
      refine List.forall_mem_cons.mpr ⟨?_, hall⟩
      rw [Token.isString, hk]
      rfl
  · rintro ⟨a, b, rfl, ha, hb, hlen, hkey, hall⟩
    have htake : (typeChain.take b).length = b := by
      rw [List.length_take]
      exact Nat.min_eq_left hb
    obtain ⟨head, tail, rfl, hfirst, hsecond⟩ : ∃ head tail, tokens = head ++ tail ∧
        (∃ fields, Fills (sortChain.take a) head fields) ∧ tail.length = b := by
      obtain rfl | rfl : a = 0 ∨ a = 1 := by omega
      · exact ⟨[], tokens, rfl, ⟨_, .nil⟩, by omega⟩
      · obtain ⟨token, key, rest, rfl, hk⟩ := hkey rfl
        refine ⟨[token], rest, rfl, ?_, ?_⟩
        · exact (exists_fills_sortChain_iff (Nat.le_refl _)).mpr
            (.inr ⟨rfl, token, key, rfl, hk⟩)
        · rw [List.length_cons] at hlen
          omega
    obtain ⟨fields, hf⟩ := hfirst
    obtain ⟨more, hm⟩ := (exists_fills_strings_iff accepts_of_mem_typeChain).mpr
      ⟨hsecond.trans htake.symm, fun token ht => hall token (List.mem_append_right _ ht)⟩
    have hlast : FillsChains [typeChain] [b] (tail ++ []) (more ++ []) := .cons hb hm .nil
    rw [List.append_nil, List.append_nil] at hlast
    exact ⟨_, .cons ha hf hlast⟩

namespace Shape

variable {shape : Shape} {lengths : List Nat} {tokens : List Token} {fields : List Field}

/-- Splits over the same required fields differ in what the chains take of the same tokens. -/
theorem exists_splits_iff (hp : shape.Positional) {required : List Field}
    {head tail : List Token} (hr : Fills shape.required head required) :
    (∃ fields, shape.Splits lengths (head ++ tail) fields) ↔
      ∃ optional, FillsChains shape.chains lengths tail optional := by
  constructor
  · rintro ⟨fields, h⟩
    generalize hw : head ++ tail = tokens at h
    obtain ⟨hr', hc⟩ := h
    have hlen := (hr.length_eq hp.required).trans (hr'.length_eq hp.required).symm
    obtain ⟨-, rfl⟩ := List.append_inj hw hlen
    exact ⟨_, hc⟩
  · rintro ⟨optional, hc⟩
    exact ⟨_, .parts hr hc⟩

theorem exists_splits_objects_iff (hp : shape.Positional)
    (hchains : shape.chains = [sortChain, typeChain]) {required : List Field}
    {head tail : List Token} (hr : Fills shape.required head required) :
    (∃ fields, shape.Splits lengths (head ++ tail) fields) ↔ SortedThenTyped lengths tail := by
  rw [exists_splits_iff hp hr, hchains]
  exact exists_fillsChains_objects_iff

/-- The longest split over the two chains gives a leading sort key to the first chain. -/
theorem splitsLongest_objects_iff (hp : shape.Positional)
    (hchains : shape.chains = [sortChain, typeChain]) {head tail : List Token}
    {required : List Field} (hr : Fills shape.required head required) {a b : Nat}
    (h : shape.Splits [a, b] (head ++ tail) fields) :
    shape.SplitsLongest [a, b] (head ++ tail) fields ↔
      (a = 0 → ∀ token key rest, tail = token :: rest → token.kind ≠ .sortKey key) := by
  have hsorted := (exists_splits_objects_iff hp hchains hr).mp ⟨_, h⟩
  constructor
  · rintro hlong rfl token key rest rfl hk
    obtain ⟨_, hother⟩ :=
      (exists_splits_objects_iff hp hchains hr).mpr (hsorted.moveSortKey hk)
    rcases hlong.longest hother with heq | hlt
    · cases heq
    · cases hlt with
      | rel hlt => exact absurd hlt (Nat.not_lt_zero _)
  · intro hfirst
    refine ⟨h, fun {others _} ho => ?_⟩
    obtain ⟨_, _, ⟨⟩, ha, -, hlen, -, -⟩ := hsorted
    obtain ⟨a', b', rfl, ha', -, hlen', hkey', -⟩ :=
      (exists_splits_objects_iff hp hchains hr).mp ⟨_, ho⟩
    match a, a', ha, ha' with
    | 0, 1, _, _ =>
      obtain ⟨token, key, rest, rfl, hk⟩ := hkey' rfl
      exact absurd hk (hfirst rfl _ _ _ rfl)
    | 1, 0, _, _ => exact .inr (.rel Nat.zero_lt_one)
    | 0, 0, _, _ | 1, 1, _, _ =>
      left
      rw [show b' = b by omega]

/-- Whatever splits has a longest split. -/
theorem Splits.exists_longest {k : Keyword} {form : Option Form}
    (hshape : k.shape? form = some shape) (h : shape.Splits lengths tokens fields) :
    ∃ lengths fields, shape.SplitsLongest lengths tokens fields := by
  rcases Keyword.shape?_cases hshape with rfl | ⟨hp, hone | hchains⟩
  · exact ⟨_, _, h.longest_of_no_chain rfl⟩
  · exact ⟨_, _, h.longest_of_one_chain hp hone⟩
  · obtain ⟨head, tail, required, rfl, hr⟩ : ∃ head tail required, tokens = head ++ tail ∧
        Fills shape.required head required := by
      obtain ⟨hr, -⟩ := h
      exact ⟨_, _, _, rfl, hr⟩
    have hsorted := (exists_splits_objects_iff hp hchains hr).mp ⟨_, h⟩
    obtain ⟨a, b, rfl, -⟩ := id hsorted
    by_cases hkey : a = 0 ∧ ∃ token key rest, tail = token :: rest ∧ token.kind = .sortKey key
    · obtain ⟨rfl, token, key, rest, rfl, hk⟩ := hkey
      obtain ⟨_, hother⟩ :=
        (exists_splits_objects_iff hp hchains hr).mpr (hsorted.moveSortKey hk)
      exact ⟨_, _, (splitsLongest_objects_iff hp hchains hr hother).mpr (by simp)⟩
    · refine ⟨_, _, (splitsLongest_objects_iff hp hchains hr h).mpr ?_⟩
      rintro rfl token key rest rfl hk
      exact hkey ⟨rfl, token, key, rest, rfl, hk⟩

end Shape

/-! ## Reading by greed -/

theorem takeChains_sound {chains : List (List FieldSpec)} {tokens : List Token} {taken : Taken}
    (h : takeChains chains tokens = .ok taken) :
    ∃ lengths head, tokens = head ++ taken.rest ∧
      FillsChains chains lengths head taken.fields := by
  induction chains generalizing tokens taken with
  | nil =>
    cases h
    exact ⟨[], [], rfl, .nil⟩
  | cons chain chains ih =>
    rw [takeChains] at h
    obtain ⟨first, hf, h⟩ := bind_eq_ok_iff.mp h
    obtain ⟨more, hm, h⟩ := bind_eq_ok_iff.mp h
    cases h
    obtain ⟨length, head, hle, rfl, hfills, -⟩ := takeChain_sound hf
    obtain ⟨lengths, tail, hrest, hchains⟩ := ih hm
    refine ⟨length :: lengths, head ++ tail, ?_, .cons hle hfills hchains⟩
    rw [hrest, List.append_assoc]

/-- A chain takes all that a split gives to it, if the reader stops where the split does. -/
theorem takeChains_cons {chain : List FieldSpec} {chains : List (List FieldSpec)} {length : Nat}
    {head rest : List Token} {fields more : List Field}
    (hs : ∀ spec ∈ chain, spec.accepts ≠ .strs) (hf : Fills (chain.take length) head fields)
    (hstop : ∀ spec, chain[length]? = some spec → takeField spec rest = .ok none)
    (hm : ∃ missed, takeChains chains rest = .ok ⟨more, missed, []⟩) :
    ∃ missed, takeChains (chain :: chains) (head ++ rest) = .ok ⟨fields ++ more, missed, []⟩ := by
  obtain ⟨missed, hc⟩ := takeChain_complete hs hf hstop
  obtain ⟨missedMore, hm⟩ := hm
  exact ⟨_, bind_eq_ok_iff.mpr ⟨_, hc, bind_eq_ok_iff.mpr ⟨_, hm, rfl⟩⟩⟩

theorem takeChains_of_one_chain {chains : List (List FieldSpec)} {lengths : List Nat}
    {tokens : List Token} {fields : List Field} (hone : chains.length ≤ 1)
    (hs : ∀ chain ∈ chains, ∀ spec ∈ chain, spec.accepts ≠ .strs)
    (h : FillsChains chains lengths tokens fields) :
    ∃ missed, takeChains chains tokens = .ok ⟨fields, missed, []⟩ := by
  rcases h with _ | ⟨-, hf, hc⟩
  · exact ⟨[], rfl⟩
  · rcases hc with _ | ⟨-, -, -⟩
    · exact takeChains_cons (hs _ List.mem_cons_self) hf (fun spec _ => takeField_nil spec)
        ⟨[], rfl⟩
    · simp at hone

theorem takeField_sortKey_eq_none {field : FieldName} {tokens : List Token}
    (h : ∀ token key rest, tokens = token :: rest → token.kind ≠ .sortKey key) :
    takeField ⟨field, .sortKey⟩ tokens = .ok none := by
  match tokens, h with
  | [], _ => exact takeField_nil _
  | token :: rest, h =>
    have hk (key : String) := h token key rest rfl
    obtain ⟨kind, _, _, _⟩ := token
    cases kind <;> first | rfl | exact absurd rfl (hk _)

theorem takeChains_of_objects {a b : Nat} {tokens : List Token} {fields : List Field}
    (h : FillsChains [sortChain, typeChain] [a, b] tokens fields)
    (hfirst : a = 0 → ∀ token key rest, tokens = token :: rest → token.kind ≠ .sortKey key) :
    ∃ missed, takeChains [sortChain, typeChain] tokens = .ok ⟨fields, missed, []⟩ := by
  have hpos : ∀ chain ∈ [sortChain, typeChain], ∀ spec ∈ chain, spec.accepts ≠ .strs := by
    decide
  obtain _ | ⟨ha, hf, hc⟩ := h
  refine takeChains_cons (hpos _ List.mem_cons_self) hf ?_
    (takeChains_of_one_chain (Nat.le_refl _)
      (fun chain hm => hpos chain (List.mem_cons_of_mem _ hm)) hc)
  -- the first chain stops in front of its sort key only if none stands there
  intro spec hspec
  match a, ha with
  | 1, _ => cases hspec
  | 0, _ =>
    cases hspec
    cases hf
    exact takeField_sortKey_eq_none (hfirst rfl)

/-! ## Declarations by greed -/

theorem ofShape_eq_ok_iff {opener terminator : Token} {k : Keyword} {form : Option Form}
    {shape : Shape} {tokens : List Token} {s : Statement} :
    Statement.ofShape opener terminator k form shape tokens = .ok s ↔
      ∃ required rest optional missed,
        takeRequired k terminator shape.required tokens = .ok (required, rest) ∧
        takeChains shape.chains rest = .ok ⟨optional, missed, []⟩ ∧
        s = ⟨k, form, required ++ optional, opener.line,
          ⟨opener.span.start, stopOf opener (required ++ optional)⟩⟩ := by
  rw [Statement.ofShape, bind_eq_ok_iff]
  constructor
  · rintro ⟨⟨required, rest⟩, hr, h⟩
    obtain ⟨⟨optional, missed, left⟩, hc, h⟩ := bind_eq_ok_iff.mp h
    cases left with
    | cons => cases h
    | nil =>
      cases h
      exact ⟨required, rest, optional, missed, hr, hc, rfl⟩
  · rintro ⟨required, rest, optional, missed, hr, hc, rfl⟩
    exact ⟨_, hr, bind_eq_ok_iff.mpr ⟨_, hc, rfl⟩⟩

theorem splits_of_ofShape {opener terminator : Token} {k : Keyword} {form : Option Form}
    {shape : Shape} {tokens : List Token} {s : Statement}
    (h : Statement.ofShape opener terminator k form shape tokens = .ok s) :
    ∃ lengths, shape.Splits lengths tokens s.fields := by
  obtain ⟨required, rest, optional, missed, hr, hc, rfl⟩ := ofShape_eq_ok_iff.mp h
  obtain ⟨head, rfl, hfills⟩ := takeRequired_sound hr
  obtain ⟨lengths, tail, rfl, hchains⟩ := takeChains_sound hc
  rw [List.append_nil]
  exact ⟨lengths, .parts hfills hchains⟩

theorem ofShape_of_splitsLongest (opener terminator : Token) {k : Keyword} {form : Option Form}
    {shape : Shape} {lengths : List Nat} {tokens : List Token} {fields : List Field}
    (hshape : k.shape? form = some shape) (h : shape.SplitsLongest lengths tokens fields) :
    Statement.ofShape opener terminator k form shape tokens =
      .ok ⟨k, form, fields, opener.line, ⟨opener.span.start, stopOf opener fields⟩⟩ := by
  obtain ⟨hsplits, -⟩ := id h
  obtain ⟨hr, hc⟩ := hsplits
  rename_i head tail required optional
  suffices hread : ∃ rest missed,
      takeRequired k terminator shape.required (head ++ tail) = .ok (required, rest) ∧
      takeChains shape.chains rest = .ok ⟨optional, missed, []⟩ by
    obtain ⟨rest, missed, hr, hc⟩ := hread
    exact ofShape_eq_ok_iff.mpr ⟨_, _, _, _, hr, hc, rfl⟩
  rcases Keyword.shape?_cases hshape with rfl | ⟨hp, hone | hchains⟩
  · cases hc
    refine ⟨[], [], ?_, rfl⟩
    obtain _ | ⟨hname, hr⟩ := hr
    obtain _ | ⟨hlist, hr⟩ := hr
    cases hr
    obtain ha | hs := hname
    · obtain ha' | ⟨hs, hstrings⟩ := hlist
      · cases ha'
      · simp [trackShape, takeRequired, takeField_one ha, takeField_strings hs hstrings, bind,
          Except.bind, pure, Except.pure]
    · cases hs
  · obtain ⟨missed, hread⟩ := takeChains_of_one_chain hone hp.chains hc
    exact ⟨tail, missed, takeRequired_complete k terminator hp.required hr tail, hread⟩
  · have hsorted := (Shape.exists_splits_objects_iff hp hchains hr).mp ⟨_, h.splits⟩
    obtain ⟨a, b, rfl, -⟩ := hsorted
    have hfirst := (Shape.splitsLongest_objects_iff hp hchains hr h.splits).mp h
    rw [hchains] at hc ⊢
    obtain ⟨missed, hread⟩ := takeChains_of_objects hc hfirst
    exact ⟨tail, missed, takeRequired_complete k terminator hp.required hr tail, hread⟩

/-- A declaration of a shape is read exactly if its fields are the longest split. -/
theorem ofShape_eq_ok_iff_splitsLongest {opener terminator : Token} {k : Keyword}
    {form : Option Form} {shape : Shape} {tokens : List Token} {s : Statement}
    (hshape : k.shape? form = some shape) :
    Statement.ofShape opener terminator k form shape tokens = .ok s ↔
      ∃ lengths fields, shape.SplitsLongest lengths tokens fields ∧
        s = ⟨k, form, fields, opener.line, ⟨opener.span.start, stopOf opener fields⟩⟩ := by
  constructor
  · intro h
    obtain ⟨lengths, hsplits⟩ := splits_of_ofShape h
    obtain ⟨lengths, fields, hlong⟩ := hsplits.exists_longest hshape
    rw [ofShape_of_splitsLongest opener terminator hshape hlong] at h
    exact ⟨lengths, fields, hlong, (Except.ok.inj h).symm⟩
  · rintro ⟨lengths, fields, hlong, rfl⟩
    exact ofShape_of_splitsLongest opener terminator hshape hlong

theorem Keyword.shapes_cases (k : Keyword) :
    (k ≠ .tilemap ∧ k ≠ .map ∧ ∃ shape, k.shapes = .single shape ∧ k.shape? none = some shape) ∨
      ((k = .tilemap ∨ k = .map) ∧ ∃ image tmx, k.shapes = .byForm image tmx ∧
        k.shape? (some .image) = some image ∧ k.shape? (some .tmx) = some tmx) := by
  cases k
  case tilemap => exact .inr ⟨.inl rfl, _, _, rfl, rfl, rfl⟩
  case map => exact .inr ⟨.inr rfl, _, _, rfl, rfl, rfl⟩
  all_goals exact .inl ⟨nofun, nofun, _, rfl, rfl⟩

theorem Keyword.selects_iff_of_single {k : Keyword} {tokens : List Token} {form : Option Form}
    (ht : k ≠ .tilemap) (hm : k ≠ .map) : k.Selects tokens form ↔ form = none := by
  constructor
  · rintro (_ | ⟨rfl | rfl, -⟩)
    · rfl
    · exact absurd rfl ht
    · exact absurd rfl hm
  · rintro rfl
    exact .none ht hm

theorem Keyword.selects_iff_of_map {k : Keyword} {tokens : List Token} {form : Option Form}
    (hk : k = .tilemap ∨ k = .map) :
    k.Selects tokens form ↔ ∃ f, form = some f ∧ announcedForm? tokens = some f := by
  constructor
  · rintro (⟨ht, hm⟩ | ⟨-, hrow⟩)
    · rcases hk with rfl | rfl
      · exact absurd rfl ht
      · exact absurd rfl hm
    · exact ⟨_, rfl, announcedForm?_eq_some_iff.mpr ⟨_, _, _, _, rfl, hrow⟩⟩
  · rintro ⟨f, rfl, h⟩
    obtain ⟨_, _, _, _, rfl, hrow⟩ := announcedForm?_eq_some_iff.mp h
    exact .row hk hrow

/-- A line whose tokens select a form is read by the shape of that form. -/
theorem ofTokens_of_selects {opener : Token} (terminator : Token) {k : Keyword}
    {form : Option Form} {shape : Shape} {tokens : List Token} (hk : opener.kind = .keyword k)
    (hselects : k.Selects tokens form) (hshape : k.shape? form = some shape) :
    Statement.ofTokens opener tokens terminator =
      Statement.ofShape opener terminator k form shape tokens := by
  unfold Statement.ofTokens
  rw [hk]
  dsimp only
  rcases k.shapes_cases with ⟨ht, hm, single, hshapes, hnone⟩ | ⟨hmap, image, tmx, hshapes, hi, ht⟩
  · obtain rfl := (Keyword.selects_iff_of_single ht hm).mp hselects
    rw [hshape] at hnone
    cases hnone
    rw [hshapes]
  · obtain ⟨f, rfl, hannounced⟩ := (Keyword.selects_iff_of_map hmap).mp hselects
    rw [hshapes, hannounced]
    cases f with
    | image =>
      rw [hshape] at hi
      cases hi
      rfl
    | tmx =>
      rw [hshape] at ht
      cases ht
      rfl

/-- Only a line whose tokens select a form is read as a declaration. -/
theorem exists_selects_of_ofTokens {opener terminator : Token} {tokens : List Token}
    {s : Statement} (h : Statement.ofTokens opener tokens terminator = .ok s) :
    ∃ k form shape, opener.kind = .keyword k ∧ k.Selects tokens form ∧
      k.shape? form = some shape := by
  unfold Statement.ofTokens at h
  split at h
  · rename_i k hk
    refine ⟨k, ?_⟩
    rcases k.shapes_cases with ⟨ht, hm, shape, hshapes, hs⟩ | ⟨hmap, image, tmx, hshapes, hi, ht⟩
    · exact ⟨none, shape, hk, .none ht hm, hs⟩
    · rw [hshapes] at h
      dsimp only at h
      have hselects {f : Form} (ha : announcedForm? tokens = some f) : k.Selects tokens (some f) :=
        (Keyword.selects_iff_of_map hmap).mpr ⟨f, rfl, ha⟩
      split at h
      · rename_i ha
        exact ⟨_, image, hk, hselects ha, hi⟩
      · rename_i ha
        exact ⟨_, tmx, hk, hselects ha, ht⟩
      · cases h
  · cases h
  · cases h

/-- A line is read as a declaration exactly if the grammar gives that declaration to it. -/
theorem ofTokens_eq_ok_iff {opener terminator : Token} {tokens : List Token} {s : Statement} :
    Statement.ofTokens opener tokens terminator = .ok s ↔ s.Derives opener tokens := by
  constructor
  · intro h
    obtain ⟨k, form, shape, hk, hselects, hshape⟩ := exists_selects_of_ofTokens h
    rw [ofTokens_of_selects terminator hk hselects hshape,
      ofShape_eq_ok_iff_splitsLongest hshape] at h
    obtain ⟨lengths, fields, hlong, rfl⟩ := h
    exact ⟨hk, hselects, ⟨shape, lengths, hshape, hlong⟩, rfl, rfl⟩
  · rintro ⟨hk, hselects, ⟨shape, lengths, hshape, hlong⟩, hline, hspan⟩
    rw [ofTokens_of_selects terminator hk hselects hshape,
      ofShape_eq_ok_iff_splitsLongest hshape]
    exact ⟨lengths, s.fields, hlong, by rw [← hline, ← hspan]⟩

end ResourceDecl
