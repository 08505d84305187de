import ResourceDecl.Proofs.Grammar.Greed
import ResourceDecl.Proofs.Tokens.Payload

/-!
# Well-formed declarations

Which declarations there are, said of the declaration alone:

* `FieldClass.Admits`, `FieldSpec.Admits`: the values of a class of fields, the fields of a position;
* `Shape.present`: the positions that are present when so much of each chain is;
* `Statement.WellFormed`: the fields are those of present positions, the form of a map is the one
  that its fields announce, and no string of `OBJECTS` stands where a sort key would be taken.

`Statement.Derives.wellFormed` is the result: the grammar gives only well-formed declarations to
tokens that were read from a line.
-/

namespace ResourceDecl

open Text

/-! ## Values -/

/-- The value is one of this class. -/
inductive FieldClass.Admits : FieldClass → FieldValue → Prop
  | ident {word : String} : IsName word → Admits .ident (.ident word)
  | str {content : String} : IsContent content.toList → Admits .str (.str content)
  | reference {word : String} : IsName word → Admits .identOrStr (.ident word)
  | quotedReference {content : String} :
      IsContent content.toList → Admits .identOrStr (.str content)
  | strs {contents : List String} :
      contents ≠ [] → (∀ content ∈ contents, IsContent content.toList) →
        Admits .strs (.strs contents)
  | int {value : Int} : FitsInt64 value → Admits .int (.int value)
  | size {size : SizeValue} : FitsInt64 size.value → Admits .size (.size size)
  | time {value : Int} : FitsInt64 value → Admits .time (.int value)
  | times {values : List Int} :
      values ≠ [] → (∀ value ∈ values, FitsInt64 value) → Admits .time (.intArray values)
  | timeRows {rows : List (List Int)} :
      rows ≠ [] → (∀ row ∈ rows, row ≠ [] ∧ ∀ value ∈ row, FitsInt64 value) →
        Admits .time (.intRows rows)
  | sortKey {key : String} :
      key ≠ "" → IsContent key.toList → Admits .sortKey (.sortKey key)
  | choice {vocabulary : Vocabulary} {word : String} :
      word ∈ vocabulary → Admits (.choice vocabulary) (.choice vocabulary word)

/-- The field is one of this position. -/
def FieldSpec.Admits (spec : FieldSpec) (field : Field) : Prop :=
  field.name = spec.name ∧ spec.accepts.Admits field.value

theorem TokenKind.Lexed.isContent {kind : TokenKind} {content : String} (h : kind.Lexed)
    (hc : kind.content? = some content) : IsContent content.toList := by
  unfold content? at hc
  split at hc
  · cases hc
    exact h.1
  · cases hc
    rw [String.toList_append]
    exact isContent_mark_append.mpr h.1
  · cases hc

theorem fits_of_forall₂ {numerals : List String} {values : List Int}
    (h : List.Forall₂ (fun numeral value => readInt64 numeral = some value) numerals values)
    (hne : numerals ≠ []) : values ≠ [] ∧ ∀ value ∈ values, FitsInt64 value := by
  constructor
  · rintro rfl
    cases h
    exact hne rfl
  · clear hne
    induction h with
    | nil => simp
    | cons hvalue _ ih => exact List.forall_mem_cons.mpr ⟨fitsInt64_of_readInt64 hvalue, ih⟩

theorem rows_fit_of_forall₂ {rows : List (List String)} {values : List (List Int)}
    (h : List.Forall₂ (List.Forall₂ fun numeral value => readInt64 numeral = some value) rows
      values)
    (hrows : ∀ row ∈ rows, row ≠ []) :
    ∀ row ∈ values, row ≠ [] ∧ ∀ value ∈ row, FitsInt64 value := by
  induction h with
  | nil => simp
  | cons hrow _ ih =>
    obtain ⟨hne, hrows⟩ := List.forall_mem_cons.mp hrows
    exact List.forall_mem_cons.mpr ⟨fits_of_forall₂ hrow hne, ih hrows⟩

/-- A class makes values of its own of tokens that were read. -/
theorem FieldClass.Accepts.admits {accepts : FieldClass} {kind : TokenKind} {value : FieldValue}
    (h : accepts.Accepts kind value) (hk : kind.Lexed) : accepts.Admits value := by
  cases h with
  | ident => exact .ident hk
  | str hc => exact .str (hk.isContent hc)
  | reference => exact .reference hk
  | quotedReference hc => exact .quotedReference (hk.isContent hc)
  | sortKey => exact .sortKey hk.2 hk.1
  | int hv => exact .int (fitsInt64_of_readInt64 hv)
  | tiles hv => exact .size (fitsInt64_of_readInt64 hv)
  | size _ hv => exact .size (fitsInt64_of_readInt64 hv)
  | time hv => exact .time (fitsInt64_of_readInt64 hv)
  | times hv =>
    obtain ⟨hne, hfit⟩ := fits_of_forall₂ hv hk
    exact .times hne hfit
  | timeRows hv =>
    refine .timeRows ?_ (rows_fit_of_forall₂ hv hk.2)
    rintro rfl
    cases hv
    exact hk.1 rfl
  | choice _ hword => exact .choice hword

/-! ## Fields -/

theorem FieldSpec.Takes.admits {spec : FieldSpec} {tokens : List Token} {field : Field}
    (h : spec.Takes tokens field) (hk : ∀ token ∈ tokens, token.kind.Lexed) :
    spec.Admits field := by
  cases h with
  | one ha => exact ⟨rfl, ha.admits (hk _ List.mem_cons_self)⟩
  | strings hs hc =>
    refine ⟨rfl, ?_⟩
    show spec.accepts.Admits (.strs _)
    rw [hs]
    refine .strs ?_ ?_
    · rintro rfl
      cases hc
    · intro content hm
      obtain ⟨_, rfl⟩ := forall₂_content?_iff.mp hc
      obtain ⟨token, ht, hcontent⟩ := List.mem_filterMap.mp hm
      exact (hk token ht).isContent hcontent

theorem Fills.admits {specs : List FieldSpec} {tokens : List Token} {fields : List Field}
    (h : Fills specs tokens fields) (hk : ∀ token ∈ tokens, token.kind.Lexed) :
    List.Forall₂ FieldSpec.Admits specs fields := by
  induction h with
  | nil => exact .nil
  | cons ht _ ih =>
    obtain ⟨hhead, htail⟩ := List.forall_mem_append.mp hk
    exact .cons (ht.admits hhead) (ih htail)

theorem FillsChains.admits {chains : List (List FieldSpec)} {lengths : List Nat}
    {tokens : List Token} {fields : List Field} (h : FillsChains chains lengths tokens fields)
    (hk : ∀ token ∈ tokens, token.kind.Lexed) :
    List.Forall₂ (fun length (chain : List FieldSpec) => length ≤ chain.length) lengths chains ∧
      List.Forall₂ FieldSpec.Admits (List.zipWith List.take lengths chains).flatten fields := by
  induction h with
  | nil => exact ⟨.nil, .nil⟩
  | cons hle hf _ ih =>
    obtain ⟨hhead, htail⟩ := List.forall_mem_append.mp hk
    obtain ⟨hlengths, hrest⟩ := ih htail
    exact ⟨.cons hle hlengths, List.rel_append (hf.admits hhead) hrest⟩

/-- The positions that are present when so much of each chain is. -/
def Shape.present (shape : Shape) (lengths : List Nat) : List FieldSpec :=
  shape.required ++ (List.zipWith List.take lengths shape.chains).flatten

/-! ## Declarations -/

/-- The value of the field that stands there, counted from 0. -/
def valueAt? (fields : List Field) (i : Nat) : Option FieldValue :=
  fields[i]?.map Field.value

/-- The fields of a map call for the TMX form: the third one is a string, and the second one names
a TMX map. -/
def AnnounceTmx (fields : List Field) : Prop :=
  ∃ path layer, valueAt? fields 1 = some (.str path) ∧ valueAt? fields 2 = some (.str layer) ∧
    NamesTmx path

/-- What a declaration is when its places are left aside. -/
structure Statement.WellFormed (s : Statement) : Prop where
  /-- The fields are those of the required positions and of a prefix of each chain. -/
  fields : ∃ shape lengths, s.keyword.shape? s.form = some shape ∧
    List.Forall₂ (fun length (chain : List FieldSpec) => length ≤ chain.length)
      lengths shape.chains ∧
    List.Forall₂ FieldSpec.Admits (shape.present lengths) s.fields
  /-- A map has the form that its fields announce. -/
  form : ∀ {form : Form}, s.form = some form → (form = .tmx ↔ AnnounceTmx s.fields)
  /-- A string behind the fields that `OBJECTS` requires would not be taken for a sort key. -/
  sorted : s.keyword = .objects → ∀ {content : String}, valueAt? s.fields 4 = some (.str content) →
    TokenKind.ofContent content.toList = .string content

theorem Shape.Splits.admits {shape : Shape} {lengths : List Nat} {tokens : List Token}
    {fields : List Field} (h : shape.Splits lengths tokens fields)
    (hk : ∀ token ∈ tokens, token.kind.Lexed) :
    List.Forall₂ (fun length (chain : List FieldSpec) => length ≤ chain.length)
        lengths shape.chains ∧
      List.Forall₂ FieldSpec.Admits (shape.present lengths) fields := by
  obtain ⟨hr, hc⟩ := h
  obtain ⟨hhead, htail⟩ := List.forall_mem_append.mp hk
  obtain ⟨hlengths, hoptional⟩ := hc.admits htail
  exact ⟨hlengths, List.rel_append (hr.admits hhead) hoptional⟩

theorem Fills.length_fields {specs : List FieldSpec} {tokens : List Token} {fields : List Field}
    (h : Fills specs tokens fields) : fields.length = specs.length := by
  induction h with
  | nil => rfl
  | cons _ _ ih => rw [List.length_cons, List.length_cons, ih]

theorem Fills.exists_cons {spec : FieldSpec} {specs : List FieldSpec} {tokens : List Token}
    {fields : List Field} (hs : spec.accepts ≠ .strs) (h : Fills (spec :: specs) tokens fields) :
    ∃ token rest value more, tokens = token :: rest ∧
      fields = ⟨spec.name, value, token.span⟩ :: more ∧
      spec.accepts.Accepts token.kind value ∧ Fills specs rest more := by
  cases h with
  | cons ht hrest =>
    cases ht with
    | one ha => exact ⟨_, _, _, _, rfl, rfl, ha, hrest⟩
    | strings hlist => exact absurd hlist hs

theorem FieldClass.accepts_str_iff {kind : TokenKind} {value : FieldValue} :
    FieldClass.str.Accepts kind value ↔
      ∃ content, kind.content? = some content ∧ value = .str content := by
  constructor
  · rintro ⟨⟩
    exact ⟨_, ‹_›, rfl⟩
  · rintro ⟨content, hc, rfl⟩
    exact .str hc

/-! ### Forms of maps -/

/-- The fields that every map requires. -/
theorem Keyword.required_of_form {k : Keyword} {form : Form} {shape : Shape}
    (h : k.shape? (some form) = some shape) :
    (k = .tilemap ∨ k = .map) ∧ ∃ fileName third,
      shape.required = [.resourceName, ⟨fileName, .str⟩, third] ∧
      (form = .image ∧ third.accepts = .identOrStr ∨ form = .tmx ∧ third.accepts = .str) := by
  revert h
  cases k <;> cases form <;> rintro ⟨⟩
  · exact ⟨.inl rfl, _, _, rfl, .inl ⟨rfl, rfl⟩⟩
  · exact ⟨.inl rfl, _, _, rfl, .inr ⟨rfl, rfl⟩⟩
  · exact ⟨.inr rfl, _, _, rfl, .inl ⟨rfl, rfl⟩⟩
  · exact ⟨.inr rfl, _, _, rfl, .inr ⟨rfl, rfl⟩⟩

/-- The tokens of a map select the form whose shape they fill exactly if the fields announce it. -/
theorem Shape.Splits.selects_iff {k : Keyword} {form : Form} {shape : Shape} {lengths : List Nat}
    {tokens : List Token} {fields : List Field} (hshape : k.shape? (some form) = some shape)
    (h : shape.Splits lengths tokens fields) :
    k.Selects tokens (some form) ↔ (form = .tmx ↔ AnnounceTmx fields) := by
  obtain ⟨hk, fileName, thirdSpec, hrequired, hthird⟩ := Keyword.required_of_form hshape
  obtain ⟨hr, -⟩ := h
  rw [hrequired] at hr
  obtain ⟨t₀, _, v₀, _, rfl, rfl, hname, hr⟩ := hr.exists_cons (by decide)
  obtain ⟨t₁, _, v₁, _, rfl, rfl, hfile, hr⟩ := hr.exists_cons (by simp)
  obtain ⟨t₂, _, v₂, _, rfl, rfl, hvalue, hr⟩ :=
    hr.exists_cons (by rcases hthird with ⟨-, h⟩ | ⟨-, h⟩ <;> simp [h])
  have hrow {tokens : List Token} : k.Selects (t₀ :: t₁ :: t₂ :: tokens) (some form) ↔
      FormRow t₀.kind t₁.kind t₂.kind form := by
    constructor
    · rintro (_ | ⟨-, hrow⟩)
      exact hrow
    · exact .row hk
  rw [List.cons_append, List.cons_append, List.cons_append, hrow]
  show _ ↔ (form = .tmx ↔ ∃ path layer, some v₁ = some (.str path) ∧ some v₂ = some (.str layer) ∧ _)
  generalize t₀.kind = opening at hname ⊢
  generalize t₁.kind = file at hfile ⊢
  generalize t₂.kind = third at hvalue ⊢
  cases hname with
  | ident word =>
    obtain ⟨path, hpath, rfl⟩ := FieldClass.accepts_str_iff.mp hfile
    rcases hthird with ⟨rfl, h⟩ | ⟨rfl, h⟩ <;> rw [h] at hvalue
    · cases hvalue with
      | reference => simpa using FormRow.reference hpath
      | @quotedReference _ layer hlayer =>
        constructor
        · rintro (_ | _ | ⟨hpath', _, hnot⟩)
          · cases hlayer
          · rw [hpath] at hpath'
            cases hpath'
            simpa using hnot
        · intro hiff
          exact .quotedReference hpath hlayer (by simpa using hiff)
    · obtain ⟨layer, hlayer, rfl⟩ := FieldClass.accepts_str_iff.mp hvalue
      constructor
      · rintro (_ | ⟨hpath', _, htmx⟩)
        rw [hpath] at hpath'
        cases hpath'
        simpa using htmx
      · intro hiff
        exact .layer hpath hlayer (by simpa using hiff)

/-! ### Sort keys of `OBJECTS` -/

theorem Keyword.shape?_objects {form : Option Form} {shape : Shape}
    (h : Keyword.objects.shape? form = some shape) :
    shape.Positional ∧ shape.required.length = 4 ∧ shape.chains = [sortChain, typeChain] := by
  revert h
  rcases form with _ | _ | _ <;> rintro ⟨⟩
  decide

/-- What the chains of `OBJECTS` make of their first token, the first chain being present or not. -/
inductive SortsFirst : Nat → List Token → Option FieldValue → Prop
  | nothing : SortsFirst 0 [] none
  | sorted {token : Token} {rest : List Token} {key : String} :
      token.kind = .sortKey key → SortsFirst 1 (token :: rest) (some (.sortKey key))
  | typed {token : Token} {rest : List Token} {content : String} :
      token.kind.content? = some content → SortsFirst 0 (token :: rest) (some (.str content))

theorem FillsChains.sortsFirst {lengths : List Nat} {tokens : List Token} {fields : List Field}
    (h : FillsChains [sortChain, typeChain] lengths tokens fields) :
    ∃ a b, lengths = [a, b] ∧ SortsFirst a tokens (fields.head?.map Field.value) := by
  obtain _ | ⟨ha, hfirst, h⟩ := h
  obtain _ | ⟨hb, hsecond, h⟩ := h
  cases h
  rename_i a _ _ b _ _
  refine ⟨a, b, rfl, ?_⟩
  match a, ha with
  | 1, _ =>
    obtain ⟨token, rest, value, more, rfl, rfl, haccepts, -⟩ := hfirst.exists_cons (by decide)
    generalize hk : token.kind = kind at haccepts
    cases haccepts
    exact .sorted hk
  | 0, _ =>
    cases hfirst
    match b, hb with
    | 0, _ =>
      cases hsecond
      exact .nothing
    | b + 1, _ =>
      obtain ⟨token, rest, value, more, rfl, rfl, haccepts, -⟩ := hsecond.exists_cons (by decide)
      obtain ⟨content, hc, rfl⟩ := FieldClass.accepts_str_iff.mp haccepts
      exact .typed hc

/-- A split of `OBJECTS` is the longest one exactly if it takes no sort key for a string. -/
theorem Shape.Splits.longest_iff_of_objects {form : Option Form} {shape : Shape}
    {lengths : List Nat} {tokens : List Token} {fields : List Field}
    (hshape : Keyword.objects.shape? form = some shape)
    (h : shape.Splits lengths tokens fields) (hk : ∀ token ∈ tokens, token.kind.Lexed) :
    shape.SplitsLongest lengths tokens fields ↔
      ∀ {content : String}, valueAt? fields 4 = some (.str content) →
        TokenKind.ofContent content.toList = .string content := by
  obtain ⟨hp, hlen, hchains⟩ := Keyword.shape?_objects hshape
  have hsplits := h
  obtain ⟨hr, hc⟩ := h
  rename_i head tail required optional
  rw [hchains] at hc
  obtain ⟨a, b, rfl, hfirst⟩ := hc.sortsFirst
  have hvalue : valueAt? (required ++ optional) 4 = optional.head?.map Field.value := by
    have hrequired := hr.length_fields
    rw [valueAt?, List.getElem?_append_right (by omega), hrequired, hlen,
      List.head?_eq_getElem?]
  rw [Shape.splitsLongest_objects_iff hp hchains hr hsplits, hvalue]
  generalize optional.head?.map Field.value = first at hfirst ⊢
  cases hfirst with
  | nothing => simp
  | sorted => simp
  | @typed token rest content hcontent =>
    have hlexed := hk token (by simp)
    constructor
    · intro hnot _ heq
      cases heq
      have hkind := hnot rfl token
      generalize token.kind = kind at hcontent hlexed hkind
      unfold TokenKind.content? at hcontent
      split at hcontent
      · cases hcontent
        exact hlexed.2
      · exact absurd rfl (hkind _ _ rfl)
      · cases hcontent
    · rintro hstring - _ key _ ⟨⟩ hkey
      rw [hkey] at hcontent hlexed
      cases hcontent
      have hmark := hstring rfl
      rw [TokenKind.ofContent_mark_append hlexed.2] at hmark
      cases hmark

/-! ### What is derived -/

/-- Tokens that were read from a line derive well-formed declarations only. -/
theorem Statement.Derives.wellFormed {s : Statement} {opener : Token} {tokens : List Token}
    (h : s.Derives opener tokens) (hk : ∀ token ∈ tokens, token.kind.Lexed) : s.WellFormed := by
  obtain ⟨-, hselects, ⟨shape, lengths, hshape, hlong⟩, -, -⟩ := h
  obtain ⟨hlengths, hfields⟩ := hlong.splits.admits hk
  refine ⟨⟨shape, lengths, hshape, hlengths, hfields⟩, ?_, ?_⟩
  · intro form hform
    rw [hform] at hselects hshape
    exact (hlong.splits.selects_iff hshape).mp hselects
  · intro hobjects
    rw [hobjects] at hshape
    exact (hlong.splits.longest_iff_of_objects hshape hk).mp hlong

end ResourceDecl
