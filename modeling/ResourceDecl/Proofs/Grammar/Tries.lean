import ResourceDecl.Proofs.Statements.Problems

/-!
# Positions that are tried

The readers of fields look at one position after the other. `Shape.Tries` says on which tokens they
try a position: the positions in front of it in its chain have found their fields, and the chains
in front of that chain have been taken as far as they stand there.

* `Shape.Tries.ofShape_error`: what is wrong with a token where it is tried is what is wrong with
  the line.
* `Shape.Tries.mem_fields`: a field that is found where it is tried is one of the declaration.
-/

namespace ResourceDecl

theorem takeField_of_value?_error {spec : FieldSpec} {token : Token} {cause : Cause}
    (h : spec.accepts.value? token.kind = .error cause) (rest : List Token) :
    takeField spec (token :: rest) = .error (token.problem cause) := by
  have hs : spec.accepts ≠ .strs := by
    intro hs
    rw [hs] at h
    cases h
  simp [takeField, hs, h]

/-- Taking the positions in their order, the reader tries one of them on these tokens. -/
inductive TriesIn : List FieldSpec → List Token → FieldSpec → List Token → Prop
  | here {spec : FieldSpec} {specs : List FieldSpec} {tokens : List Token} :
      TriesIn (spec :: specs) tokens spec tokens
  | later {first spec : FieldSpec} {specs : List FieldSpec} {tokens middle rest : List Token}
      {field : Field} :
      takeField first tokens = .ok (some (field, middle)) → TriesIn specs middle spec rest →
        TriesIn (first :: specs) tokens spec rest

/-- Taking the chains one behind the other, the reader tries a position on these tokens. -/
inductive TriesInChains : List (List FieldSpec) → List Token → FieldSpec → List Token → Prop
  | inside {chain : List FieldSpec} {chains : List (List FieldSpec)} {tokens rest : List Token}
      {spec : FieldSpec} :
      TriesIn chain tokens spec rest → TriesInChains (chain :: chains) tokens spec rest
  | behind {chain : List FieldSpec} {chains : List (List FieldSpec)} {tokens rest : List Token}
      {spec : FieldSpec} {taken : Taken} :
      takeChain chain tokens = .ok taken → TriesInChains chains taken.rest spec rest →
        TriesInChains (chain :: chains) tokens spec rest

/-- Taking the fields of the shape, the reader tries a position on these tokens. -/
inductive Shape.Tries (shape : Shape) (k : Keyword) (terminator : Token) (tokens : List Token)
    (spec : FieldSpec) (rest : List Token) : Prop
  | required : TriesIn shape.required tokens spec rest → Tries shape k terminator tokens spec rest
  | optional {fields : List Field} {middle : List Token} :
      takeRequired k terminator shape.required tokens = .ok (fields, middle) →
        TriesInChains shape.chains middle spec rest → Tries shape k terminator tokens spec rest

section Tried

variable {k : Keyword} {terminator : Token} {specs : List FieldSpec} {spec : FieldSpec}
  {tokens rest more : List Token} {field : Field} {problem : Problem}

namespace TriesIn

theorem suffix (h : TriesIn specs tokens spec rest) : rest <:+ tokens := by
  induction h with
  | here => exact List.suffix_rfl
  | later hfirst _ ih =>
    obtain ⟨head, rfl, -⟩ := takeField_sound hfirst
    exact ih.trans (List.suffix_append _ _)

theorem takeRequired_error (h : TriesIn specs tokens spec rest)
    (herror : takeField spec rest = .error problem) :
    takeRequired k terminator specs tokens = .error problem := by
  induction h with
  | here =>
    rw [takeRequired, herror]
    rfl
  | later hfirst _ ih =>
    rw [takeRequired, hfirst]
    simp only [bind, Except.bind, ih herror]

theorem takeChain_error (h : TriesIn specs tokens spec rest)
    (herror : takeField spec rest = .error problem) :
    takeChain specs tokens = .error problem := by
  induction h with
  | here =>
    rw [takeChain, herror]
    rfl
  | later hfirst _ ih =>
    rw [takeChain, hfirst]
    simp only [bind, Except.bind, ih herror]

theorem mem_takeRequired {fields : List Field} (h : TriesIn specs tokens spec rest)
    (hfield : takeField spec rest = .ok (some (field, more))) {left : List Token}
    (hok : takeRequired k terminator specs tokens = .ok (fields, left)) : field ∈ fields := by
  induction h generalizing fields with
  | here =>
    rw [takeRequired, hfield] at hok
    obtain ⟨_, ⟨⟩, hok⟩ := bind_eq_ok_iff.mp hok
    obtain ⟨⟨others, _⟩, -, hok⟩ := bind_eq_ok_iff.mp hok
    cases hok
    exact List.mem_cons_self
  | later hfirst _ ih =>
    rw [takeRequired, hfirst] at hok
    obtain ⟨_, ⟨⟩, hok⟩ := bind_eq_ok_iff.mp hok
    obtain ⟨⟨others, _⟩, hothers, hok⟩ := bind_eq_ok_iff.mp hok
    cases hok
    exact List.mem_cons_of_mem _ (ih hfield hothers)

theorem mem_takeChain {taken : Taken} (h : TriesIn specs tokens spec rest)
    (hfield : takeField spec rest = .ok (some (field, more)))
    (hok : takeChain specs tokens = .ok taken) : field ∈ taken.fields := by
  induction h generalizing taken with
  | here =>
    rw [takeChain, hfield] at hok
    obtain ⟨_, ⟨⟩, hok⟩ := bind_eq_ok_iff.mp hok
    obtain ⟨others, -, hok⟩ := bind_eq_ok_iff.mp hok
    cases hok
    exact List.mem_cons_self
  | later hfirst _ ih =>
    rw [takeChain, hfirst] at hok
    obtain ⟨_, ⟨⟩, hok⟩ := bind_eq_ok_iff.mp hok
    obtain ⟨others, hothers, hok⟩ := bind_eq_ok_iff.mp hok
    cases hok
    exact List.mem_cons_of_mem _ (ih hfield hothers)

end TriesIn

namespace TriesInChains

variable {chains : List (List FieldSpec)}

theorem suffix (h : TriesInChains chains tokens spec rest) : rest <:+ tokens := by
  induction h with
  | inside hin => exact hin.suffix
  | behind hchain _ ih =>
    obtain ⟨_, head, -, heq, -⟩ := takeChain_sound hchain
    rw [heq]
    exact ih.trans (List.suffix_append _ _)

theorem takeChains_error (h : TriesInChains chains tokens spec rest)
    (herror : takeField spec rest = .error problem) :
    takeChains chains tokens = .error problem := by
  induction h with
  | inside hin =>
    rw [takeChains, hin.takeChain_error herror]
    rfl
  | behind hchain _ ih =>
    rw [takeChains, hchain]
    simp only [bind, Except.bind, ih herror]

theorem mem_takeChains {taken : Taken} (h : TriesInChains chains tokens spec rest)
    (hfield : takeField spec rest = .ok (some (field, more)))
    (hok : takeChains chains tokens = .ok taken) : field ∈ taken.fields := by
  induction h generalizing taken with
  | inside hin =>
    rw [takeChains] at hok
    obtain ⟨first, hfirst, hok⟩ := bind_eq_ok_iff.mp hok
    obtain ⟨others, -, hok⟩ := bind_eq_ok_iff.mp hok
    cases hok
    exact List.mem_append_left _ (hin.mem_takeChain hfield hfirst)
  | behind hchain _ ih =>
    rw [takeChains, hchain] at hok
    obtain ⟨_, ⟨⟩, hok⟩ := bind_eq_ok_iff.mp hok
    obtain ⟨others, hothers, hok⟩ := bind_eq_ok_iff.mp hok
    cases hok
    exact List.mem_append_right _ (ih hfield hothers)

end TriesInChains

namespace Shape.Tries

variable {shape : Shape} {opener : Token} {form : Option Form}

theorem suffix (h : shape.Tries k terminator tokens spec rest) : rest <:+ tokens := by
  cases h with
  | required hin => exact hin.suffix
  | optional hrequired hin =>
    obtain ⟨head, rfl, -⟩ := takeRequired_sound hrequired
    exact hin.suffix.trans (List.suffix_append _ _)

/-- A token that is refused where it is tried is what is wrong with the line. -/
theorem ofShape_error (h : shape.Tries k terminator tokens spec rest)
    (herror : takeField spec rest = .error problem) :
    Statement.ofShape opener terminator k form shape tokens = .error problem := by
  rw [Statement.ofShape]
  cases h with
  | required hin =>
    rw [hin.takeRequired_error herror]
    rfl
  | optional hrequired hin =>
    rw [hrequired]
    simp only [bind, Except.bind, hin.takeChains_error herror]

/-- A field that is found where it is tried is one of the declaration. -/
theorem mem_fields (h : shape.Tries k terminator tokens spec rest)
    (hfield : takeField spec rest = .ok (some (field, more))) {s : Statement}
    (hok : Statement.ofShape opener terminator k form shape tokens = .ok s) :
    field ∈ s.fields := by
  obtain ⟨required, middle, optional, missed, hr, hc, rfl⟩ := ofShape_eq_ok_iff.mp hok
  cases h with
  | required hin => exact List.mem_append_left _ (hin.mem_takeRequired hfield hr)
  | optional hrequired hin =>
    rw [hrequired] at hr
    cases hr
    exact List.mem_append_right _ (hin.mem_takeChains hfield hc)

end Shape.Tries

end Tried

end ResourceDecl
