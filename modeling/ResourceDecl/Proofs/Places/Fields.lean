import ResourceDecl.Proofs.Grammar.Greed

/-!
# Where fields stand

A field reaches over the tokens that it is made of: one token, or all strings of a list. If the
tokens of a line lie one behind the other, so do the fields that the grammar makes of them.

* `InOrder`: tokens that lie one behind the other.
* `foldl_join`: the range over such tokens reaches from the first one to the last one.
* `Drawn`: fields that reach over tokens, one behind the other; `Drawn.append` puts them together.
* `Statement.Derives.drawn`: the fields of a declaration.
-/

namespace ResourceDecl

open Text

/-! ## Tokens in order -/

/-- None of the tokens is empty, and each lies behind those in front of it. -/
structure InOrder (tokens : List Token) : Prop where
  start_lt_stop : ∀ token ∈ tokens, token.span.start < token.span.stop
  follow : tokens.Pairwise fun a b => a.span.stop ≤ b.span.start

theorem inOrder_append {a b : List Token} : InOrder (a ++ b) ↔
    InOrder a ∧ InOrder b ∧ ∀ x ∈ a, ∀ y ∈ b, x.span.stop ≤ y.span.start := by
  constructor
  · rintro ⟨hpart, hfollow⟩
    obtain ⟨ha, hb, hcross⟩ := List.pairwise_append.mp hfollow
    refine ⟨⟨fun token hm => ?_, ha⟩, ⟨fun token hm => ?_, hb⟩, hcross⟩
    · exact hpart token (List.mem_append_left _ hm)
    · exact hpart token (List.mem_append_right _ hm)
  · rintro ⟨ha, hb, hcross⟩
    refine ⟨fun token hm => ?_, List.pairwise_append.mpr ⟨ha.follow, hb.follow, hcross⟩⟩
    exact (List.mem_append.mp hm).elim (ha.start_lt_stop token) (hb.start_lt_stop token)

theorem inOrder_cons {token : Token} {tokens : List Token} : InOrder (token :: tokens) ↔
    token.span.start < token.span.stop ∧ InOrder tokens ∧
      ∀ y ∈ tokens, token.span.stop ≤ y.span.start := by
  constructor
  · rintro ⟨hpart, hfollow⟩
    obtain ⟨htoken, hpart⟩ := List.forall_mem_cons.mp hpart
    obtain ⟨hfirst, hfollow⟩ := List.pairwise_cons.mp hfollow
    exact ⟨htoken, ⟨hpart, hfollow⟩, hfirst⟩
  · rintro ⟨htoken, horder, hfirst⟩
    exact ⟨List.forall_mem_cons.mpr ⟨htoken, horder.start_lt_stop⟩, .cons hfirst horder.follow⟩

/-- A range that reaches up to a token is carried on to the last one behind it. -/
theorem foldl_join {first reached : Token} {more : List Token} (h : InOrder (reached :: more))
    (hstart : first.span.start ≤ reached.span.start) :
    ∃ last ∈ reached :: more, first.span.start ≤ last.span.start ∧
      more.foldl (fun (span : Span) token => span.join token.span)
        ⟨first.span.start, reached.span.stop⟩ = ⟨first.span.start, last.span.stop⟩ := by
  induction more generalizing reached with
  | nil => exact ⟨reached, List.mem_cons_self, hstart, rfl⟩
  | cons token more ih =>
    obtain ⟨hreached, horder, hfirst⟩ := inOrder_cons.mp h
    have hnext := hfirst token List.mem_cons_self
    have htoken := horder.start_lt_stop token List.mem_cons_self
    have hjoin : Span.join ⟨first.span.start, reached.span.stop⟩ token.span =
        ⟨first.span.start, token.span.stop⟩ := by
      have hleft : first.span.start ≤ token.span.start := by omega
      have hright : reached.span.stop ≤ token.span.stop := by omega
      simp only [Span.join, Nat.min_eq_left hleft, Nat.max_eq_right hright]
    obtain ⟨last, hm, hle, hfold⟩ := ih horder (by omega)
    rw [List.foldl_cons, hjoin]
    exact ⟨last, List.mem_cons_of_mem _ hm, hle, hfold⟩

/-! ## Fields -/

/-- The field reaches from one of the tokens to the same one or to a later one. -/
def Field.Covers (field : Field) (tokens : List Token) : Prop :=
  ∃ first ∈ tokens, ∃ last ∈ tokens, first.span.start ≤ last.span.start ∧
    field.span = ⟨first.span.start, last.span.stop⟩

theorem Field.Covers.mono {field : Field} {tokens others : List Token} (h : field.Covers tokens)
    (hsub : tokens ⊆ others) : field.Covers others := by
  obtain ⟨first, hfirst, last, hlast, hspan⟩ := h
  exact ⟨first, hsub hfirst, last, hsub hlast, hspan⟩

theorem Field.Covers.start_lt_stop {field : Field} {tokens : List Token}
    (h : field.Covers tokens) (horder : InOrder tokens) : field.span.start < field.span.stop := by
  obtain ⟨first, _, last, hlast, hle, hspan⟩ := h
  rw [hspan]
  exact Nat.lt_of_le_of_lt hle (horder.start_lt_stop last hlast)

/-- A position reaches over the tokens that it takes. -/
theorem FieldSpec.Takes.covers {spec : FieldSpec} {tokens : List Token} {field : Field}
    (h : spec.Takes tokens field) (horder : InOrder tokens) : field.Covers tokens := by
  cases h with
  | @one token value =>
    exact ⟨token, List.mem_cons_self, token, List.mem_cons_self, Nat.le_refl _, rfl⟩
  | @strings first more contents =>
    obtain ⟨last, hm, hle, hspan⟩ := foldl_join horder (Nat.le_refl first.span.start)
    exact ⟨first, List.mem_cons_self, last, hm, hle, hspan⟩

/-- The fields reach over the tokens, and each lies behind those in front of it. -/
structure Drawn (tokens : List Token) (fields : List Field) : Prop where
  covers : ∀ field ∈ fields, field.Covers tokens
  follow : fields.Pairwise fun f g => f.span.stop ≤ g.span.start

theorem Drawn.append {head tail : List Token} {fields more : List Field}
    (horder : InOrder (head ++ tail)) (h : Drawn head fields) (hmore : Drawn tail more) :
    Drawn (head ++ tail) (fields ++ more) := by
  obtain ⟨-, -, hcross⟩ := inOrder_append.mp horder
  constructor
  · intro field hm
    rcases List.mem_append.mp hm with hm | hm
    · exact (h.covers field hm).mono (List.subset_append_left _ _)
    · exact (hmore.covers field hm).mono (List.subset_append_right _ _)
  · refine List.pairwise_append.mpr ⟨h.follow, hmore.follow, fun f hf g hg => ?_⟩
    obtain ⟨_, _, last, hlast, _, hfspan⟩ := h.covers f hf
    obtain ⟨first, hfirst, _, _, _, hgspan⟩ := hmore.covers g hg
    rw [hfspan, hgspan]
    exact hcross last hlast first hfirst

theorem Fills.drawn {specs : List FieldSpec} {tokens : List Token} {fields : List Field}
    (h : Fills specs tokens fields) (horder : InOrder tokens) : Drawn tokens fields := by
  induction h with
  | nil => exact ⟨List.forall_mem_nil _, .nil⟩
  | @cons spec specs head tail field fields htakes _ ih =>
    obtain ⟨hhead, htail, -⟩ := inOrder_append.mp horder
    have hfield : Drawn head [field] :=
      ⟨by simpa using htakes.covers hhead, List.pairwise_singleton _ _⟩
    exact hfield.append horder (ih htail)

theorem FillsChains.drawn {chains : List (List FieldSpec)} {lengths : List Nat}
    {tokens : List Token} {fields : List Field} (h : FillsChains chains lengths tokens fields)
    (horder : InOrder tokens) : Drawn tokens fields := by
  induction h with
  | nil => exact ⟨List.forall_mem_nil _, .nil⟩
  | cons _ hfills _ ih =>
    obtain ⟨hhead, htail, -⟩ := inOrder_append.mp horder
    exact (hfills.drawn hhead).append horder (ih htail)

theorem Shape.Splits.drawn {shape : Shape} {lengths : List Nat} {tokens : List Token}
    {fields : List Field} (h : shape.Splits lengths tokens fields) (horder : InOrder tokens) :
    Drawn tokens fields := by
  cases h with
  | parts hrequired hoptional =>
    obtain ⟨hhead, htail, -⟩ := inOrder_append.mp horder
    exact (hrequired.drawn hhead).append horder (hoptional.drawn htail)

/-- The fields of a declaration reach over the tokens behind its keyword. -/
theorem Statement.Derives.drawn {s : Statement} {opener : Token} {tokens : List Token}
    (h : s.Derives opener tokens) (horder : InOrder tokens) : Drawn tokens s.fields := by
  obtain ⟨-, -, ⟨shape, lengths, -, hsplits⟩, -, -⟩ := h
  exact hsplits.splits.drawn horder

/-! ## The range of a declaration -/

/-- The range of a declaration reaches over its fields, all of which stand behind the keyword. -/
theorem Statement.Derives.within {s : Statement} {opener : Token} {tokens : List Token}
    (h : s.Derives opener tokens) (horder : InOrder (opener :: tokens)) :
    ∀ field ∈ s.fields, opener.span.stop ≤ field.span.start ∧ field.span.stop ≤ s.span.stop := by
  obtain ⟨-, htail, hbehind⟩ := inOrder_cons.mp horder
  obtain ⟨hcovers, hfollow⟩ := h.drawn htail
  intro field hm
  constructor
  · obtain ⟨first, hfirst, _, _, _, hspan⟩ := hcovers field hm
    rw [hspan]
    exact hbehind first hfirst
  · obtain ⟨front, last, heq⟩ :=
      (List.eq_nil_or_concat' s.fields).resolve_left (List.ne_nil_of_mem hm)
    have hstop : s.span.stop = last.span.stop := by
      rw [h.span, stopOf, heq, List.getLast?_concat]
      rfl
    rw [heq] at hm hfollow hcovers
    rw [hstop]
    rcases List.mem_append.mp hm with hm | hm
    · have hbefore := (List.pairwise_append.mp hfollow).2.2 field hm last List.mem_cons_self
      have hlast := (hcovers last (by simp)).start_lt_stop htail
      omega
    · rw [List.mem_singleton.mp hm]

end ResourceDecl
