import ResourceDecl.Proofs.Statements.WellFormed

/-!
# Printed declarations read back

`Statement.kinds` are the tokens of a printed declaration behind its keyword.

* `Statement.WellFormed.lexes_print`: a line that starts with a printed declaration holds these
  tokens, whatever the print options are.
* `Statement.WellFormed.declares`: tokens of these kinds are read as a declaration that differs from
  the printed one in its places only.
-/

namespace ResourceDecl

open Text

/-! ## Tokens of printed values -/

/-- The tokens of a printed value. -/
def FieldValue.kinds : FieldValue → List TokenKind
  | ident word => [.ident word]
  | str content => [.ofContent content.toList]
  | strs contents => contents.map fun content => .ofContent content.toList
  | int value => [.int (toString value)]
  | size ⟨value, none⟩ => [.int (toString value)]
  | size ⟨value, some unit⟩ => [.size (toString value) unit]
  | intArray values => [.intArray (values.map toString)]
  | intRows rows => [.intRows (rows.map (List.map toString))]
  | sortKey key => [.sortKey key]
  | choice _ word => [wordKind word]

/-- The tokens of a printed declaration behind its keyword. -/
def Statement.kinds (s : Statement) : List TokenKind :=
  s.fields.flatMap fun field => field.value.kinds

/-- A class that takes one token takes the one that its value is printed as. -/
theorem FieldClass.Admits.accepts {accepts : FieldClass} {value : FieldValue}
    (h : accepts.Admits value) (hs : accepts ≠ .strs) :
    ∃ kind, value.kinds = [kind] ∧ accepts.Accepts kind value ∧ kind.Lexed := by
  have hcontent (content : String) :
      (TokenKind.ofContent content.toList).content? = some content := by
    rw [TokenKind.content?_ofContent, String.ofList_toList]
  have hints {values : List Int} (hfit : ∀ value ∈ values, FitsInt64 value) :
      List.Forall₂ (fun numeral value => readInt64 numeral = some value)
        (values.map toString) values := by
    rw [List.forall₂_map_left_iff, List.forall₂_same]
    exact fun value hm => readInt64_toString (hfit value hm)
  cases h with
  | ident hname => exact ⟨_, rfl, .ident _, hname⟩
  | str hc => exact ⟨_, rfl, .str (hcontent _), TokenKind.lexed_ofContent hc⟩
  | reference hname => exact ⟨_, rfl, .reference _, hname⟩
  | quotedReference hc =>
    exact ⟨_, rfl, .quotedReference (hcontent _), TokenKind.lexed_ofContent hc⟩
  | strs => exact absurd rfl hs
  | int hv => exact ⟨_, rfl, .int (readInt64_toString hv), trivial⟩
  | @size size hv =>
    obtain ⟨value, unit⟩ := size
    cases unit with
    | none => exact ⟨_, rfl, .tiles (readInt64_toString hv), trivial⟩
    | some unit => exact ⟨_, rfl, .size unit (readInt64_toString hv), trivial⟩
  | time hv => exact ⟨_, rfl, .time (readInt64_toString hv), trivial⟩
  | times hne hfit =>
    refine ⟨_, rfl, .times (hints hfit), ?_⟩
    show _ ≠ _
    simpa using hne
  | @timeRows rows hne hrows =>
    refine ⟨_, rfl, .timeRows ?_, ?_⟩
    · rw [List.forall₂_map_left_iff, List.forall₂_same]
      exact fun row hm => hints (hrows row hm).2
    · show _ ≠ _ ∧ _
      simpa using ⟨hne, fun row hm => (hrows row hm).1⟩
  | sortKey hne hc => exact ⟨_, rfl, .sortKey _, hc, hne⟩
  | choice hword =>
    refine ⟨_, rfl, .choice (word?_wordKind _) hword, ?_⟩
    unfold wordKind
    split
    · rename_i h
      exact TokenKind.lexed_ofWord h
    · trivial

/-! ## Texts of printed values -/

theorem Prints.append {text more : List Char} {kinds others : List TokenKind}
    (h : Prints text kinds) (hmore : Prints more others) :
    Prints (text ++ more) (kinds ++ others) := by
  induction h with
  | nil => exact hmore
  | cons hne hgap hword _ ih =>
    rw [List.append_assoc, List.append_assoc]
    exact .cons hne hgap hword ih

theorem Prints.one {gap word : List Char} {kind : TokenKind} (hne : gap ≠ [])
    (hgap : ∀ c ∈ gap, isInlineBlank c) (hword : Spells word kind) :
    Prints (gap ++ word) [kind] := by
  have h := Prints.cons hne hgap hword .nil
  rwa [List.append_nil] at h

/-- More blanks may stand in front of the first token. -/
theorem Prints.pad {gap text : List Char} {kinds : List TokenKind}
    (hgap : ∀ c ∈ gap, isInlineBlank c) (h : Prints text kinds) (hne : kinds ≠ []) :
    Prints (gap ++ text) kinds := by
  cases h with
  | nil => exact absurd rfl hne
  | cons hnonempty hgap' hword htext =>
    rw [← List.append_assoc]
    refine .cons ?_ (List.forall_mem_append.mpr ⟨hgap, hgap'⟩) hword htext
    simp [hnonempty]

section Separator

variable {separator : String} (hne : separator.toList ≠ [])
  (hgap : ∀ c ∈ separator.toList, isInlineBlank c)

include hne hgap

theorem prints_strs {contents : List String} (hcontents : contents ≠ [])
    (h : ∀ content ∈ contents, IsContent content.toList) :
    Prints (separator.toList ++ (FieldValue.print separator (.strs contents)).toList)
      (FieldValue.kinds (.strs contents)) := by
  induction contents with
  | nil => exact absurd rfl hcontents
  | cons content contents ih =>
    obtain ⟨hcontent, hrest⟩ := List.forall_mem_cons.mp h
    have hone := Prints.one hne hgap (spells_quoted hcontent)
    cases contents with
    | nil => simpa [FieldValue.print, FieldValue.kinds] using hone
    | cons next contents =>
      have hboth := hone.append (ih (by simp) hrest)
      simpa [FieldValue.print, FieldValue.kinds] using hboth

theorem FieldClass.Admits.prints {accepts : FieldClass} {value : FieldValue}
    (h : accepts.Admits value) :
    Prints (separator.toList ++ (value.print separator).toList) value.kinds := by
  have hword {word : String} (hname : IsName word) :
      Spells word.toList (.ident word) := by
    have hspells := spells_word hname.1
    rwa [TokenKind.ofWord, hname.2] at hspells
  cases h with
  | ident hname => exact .one hne hgap (hword hname)
  | str hc => exact .one hne hgap (spells_quoted hc)
  | reference hname => exact .one hne hgap (hword hname)
  | quotedReference hc => exact .one hne hgap (spells_quoted hc)
  | strs hcontents h => exact prints_strs hne hgap hcontents h
  | int _ => exact .one hne hgap (spells_int _)
  | @size size _ =>
    obtain ⟨value, unit⟩ := size
    cases unit with
    | none => exact .one hne hgap (spells_int _)
    | some unit =>
      have hsize := Prints.one hne hgap (spells_size value unit)
      simpa [FieldValue.print, SizeValue.print, FieldValue.kinds] using hsize
  | time _ => exact .one hne hgap (spells_int _)
  | times hvalues _ => exact .one hne hgap (spells_row hvalues)
  | timeRows hrows h => exact .one hne hgap (spells_rows hrows fun row hm => (h row hm).1)
  | @sortKey key hkey hc =>
    have hquoted : IsContent (sortKeyMark ++ key).toList := by
      rw [String.toList_append]
      exact isContent_mark_append.mpr hc
    have hspells := spells_quoted hquoted
    rw [TokenKind.ofContent_mark_append hkey] at hspells
    exact .one hne hgap hspells
  | choice hword => exact .one hne hgap (spells_of_mem_vocabulary hword)

theorem prints_fields {specs : List FieldSpec} {fields : List Field}
    (h : List.Forall₂ FieldSpec.Admits specs fields) :
    Prints (String.join (fields.map fun field => separator ++ field.value.print separator)).toList
      (fields.flatMap fun field => field.value.kinds) := by
  induction h with
  | nil => exact .nil
  | cons hfield _ ih =>
    have hboth := (hfield.2.prints hne hgap).append ih
    simpa [List.append_assoc] using hboth

end Separator

/-! ## Printed lines -/

theorem isInlineBlank_of_mem_spaces {width : Nat} {c : Char} (h : c ∈ (spaces width).toList) :
    isInlineBlank c := by
  rw [spaces, String.toList_ofList] at h
  rw [(List.mem_replicate.mp h).2]
  decide

theorem PrintOptions.separator_ne_nil (options : PrintOptions) :
    options.separator.toList ≠ [] := by
  rw [separator, spaces, String.toList_ofList]
  intro h
  have hlen := congrArg List.length h
  rw [List.length_replicate, List.length_nil] at hlen
  omega

theorem spells_keyword (k : Keyword) : Spells k.spelling.toList (.keyword k) := by
  have hword : isWord k.spelling := by cases k <;> decide
  have hspells := spells_word hword
  rwa [TokenKind.ofWord, Keyword.ofSpelling?_eq_some_iff.mpr rfl] at hspells

theorem Statement.toList_print (options : PrintOptions) (s : Statement) :
    ∃ gap, (∀ c ∈ gap, isInlineBlank c) ∧ (s.fields = [] → gap = []) ∧
      (s.print options).toList = s.keyword.spelling.toList ++ (gap ++
        (String.join (s.fields.map fun field =>
          options.separator ++ field.value.print options.separator)).toList) := by
  by_cases hnil : s.fields = []
  · exact ⟨[], by simp, fun _ => rfl, by simp [print, hnil]⟩
  · refine ⟨(spaces (options.keywordWidth - s.keyword.spelling.length)).toList,
      fun c hc => isInlineBlank_of_mem_spaces hc, fun h => absurd h hnil, ?_⟩
    rw [print, if_neg (by simpa using hnil), padRight, spaces, String.toList_append,
      String.toList_append, List.append_assoc]

theorem FieldValue.kinds_ne_nil {accepts : FieldClass} {value : FieldValue}
    (h : accepts.Admits value) : value.kinds ≠ [] := by
  by_cases hs : accepts = .strs
  · subst hs
    cases h with
    | strs hne => simpa [kinds] using hne
  · obtain ⟨kind, heq, -⟩ := h.accepts hs
    rw [heq]
    simp

theorem flatMap_kinds_ne_nil {specs : List FieldSpec} {fields : List Field}
    (h : List.Forall₂ FieldSpec.Admits specs fields) (hne : fields ≠ []) :
    (fields.flatMap fun field => field.value.kinds) ≠ [] := by
  cases h with
  | nil => exact absurd rfl hne
  | cons hfield _ => simp [FieldValue.kinds_ne_nil hfield.2]

/-- The printed form is the keyword and the printed tokens of the fields. -/
theorem Statement.WellFormed.exists_prints {s : Statement} (h : s.WellFormed)
    (options : PrintOptions) : ∃ text, Prints text s.kinds ∧
      (s.print options).toList = s.keyword.spelling.toList ++ text := by
  obtain ⟨shape, lengths, -, -, hfields⟩ := h.fields
  obtain ⟨gap, hgap, hnil, hprint⟩ := s.toList_print options
  have htext := prints_fields options.separator_ne_nil
    (fun c hc => isInlineBlank_of_mem_spaces hc) hfields
  refine ⟨_, ?_, hprint⟩
  by_cases hempty : s.fields = []
  · rw [hnil hempty]
    exact htext
  · exact htext.pad hgap (flatMap_kinds_ne_nil hfields hempty)

/-- A line that starts with a printed declaration holds its tokens. -/
theorem Statement.WellFormed.lexes_print {s : Statement} (h : s.WellFormed)
    (options : PrintOptions) {rest : List Char} {comment : Option String} (hends : EndsToken rest)
    (hrest : Lexes rest [] comment) :
    Lexes ((s.print options).toList ++ rest) (.keyword s.keyword :: s.kinds) comment := by
  obtain ⟨text, htext, hprint⟩ := h.exists_prints options
  rw [hprint, List.append_assoc]
  exact (spells_keyword s.keyword).lexes (htext.endsToken hends) (htext.lexes hends hrest)

theorem Statement.WellFormed.not_mem_print {s : Statement} (h : s.WellFormed)
    (options : PrintOptions) : '\n' ∉ (s.print options).toList := by
  obtain ⟨text, htext, hprint⟩ := h.exists_prints options
  rw [hprint]
  intro hm
  rcases List.mem_append.mp hm with hm | hm
  · exact (spells_keyword s.keyword).1 hm
  · exact htext.not_mem_newline hm

/-! ## Reading back -/

theorem FieldClass.Admits.lexed {accepts : FieldClass} {value : FieldValue}
    (h : accepts.Admits value) : ∀ kind ∈ value.kinds, kind.Lexed := by
  by_cases hs : accepts = .strs
  · subst hs
    cases h with
    | strs _ hcontents =>
      intro kind hm
      obtain ⟨content, hc, rfl⟩ := List.mem_map.mp hm
      exact TokenKind.lexed_ofContent (hcontents content hc)
  · obtain ⟨kind, heq, -, hlexed⟩ := h.accepts hs
    rw [heq]
    simpa using hlexed

/-- What `SameShape` compares of fields. -/
def namedValues (fields : List Field) : List (FieldName × FieldValue) :=
  fields.map fun field => (field.name, field.value)

theorem valueAt?_eq_of_namedValues {fields others : List Field}
    (h : namedValues fields = namedValues others) (i : Nat) :
    valueAt? fields i = valueAt? others i := by
  have hvalue (fields : List Field) :
      valueAt? fields i = (namedValues fields)[i]?.map Prod.snd := by
    rw [valueAt?, namedValues, List.getElem?_map, Option.map_map]
    rfl
  rw [hvalue, hvalue, h]

theorem FieldSpec.Admits.takes {spec : FieldSpec} {field : Field} (h : spec.Admits field)
    {tokens : List Token} (hk : tokens.map Token.kind = field.value.kinds) :
    ∃ taken, spec.Takes tokens taken ∧ (taken.name, taken.value) = (field.name, field.value) := by
  obtain ⟨fieldName, value, span⟩ := field
  obtain ⟨rfl, hvalue⟩ := h
  by_cases hs : spec.accepts = .strs
  · rw [hs] at hvalue
    cases hvalue with
    | @strs contents hne _ =>
      have hpairs : List.Forall₂ (fun (token : Token) content => token.kind.content? = some content)
          tokens contents := by
        have heq : List.Forall₂ (· = ·) (tokens.map Token.kind)
            (contents.map fun content => .ofContent content.toList) := by
          rw [hk]
          exact List.forall₂_refl _
        rw [List.forall₂_map_left_iff, List.forall₂_map_right_iff] at heq
        refine heq.imp fun token content hkind => ?_
        rw [hkind, TokenKind.content?_ofContent, String.ofList_toList]
      cases hpairs with
      | nil => exact absurd rfl hne
      | cons hfirst hmore => exact ⟨_, .strings hs (.cons hfirst hmore), rfl⟩
  · obtain ⟨kind, heq, haccepts, -⟩ := hvalue.accepts hs
    rw [heq] at hk
    obtain ⟨token, rfl, hkind⟩ := List.map_eq_singleton_iff.mp hk
    rw [← hkind] at haccepts
    exact ⟨_, .one haccepts, rfl⟩

theorem exists_fills {specs : List FieldSpec} {fields : List Field}
    (h : List.Forall₂ FieldSpec.Admits specs fields) {tokens : List Token}
    (hk : tokens.map Token.kind = fields.flatMap fun field => field.value.kinds) :
    ∃ taken, Fills specs tokens taken ∧ namedValues taken = namedValues fields := by
  induction h generalizing tokens with
  | nil =>
    obtain rfl : tokens = [] := by simpa using hk
    exact ⟨[], .nil, rfl⟩
  | cons hfield _ ih =>
    obtain ⟨head, tail, rfl, hhead, htail⟩ := List.map_eq_append_iff.mp hk
    obtain ⟨taken, htakes, hsame⟩ := hfield.takes hhead
    obtain ⟨more, hfills, hmore⟩ := ih htail
    refine ⟨taken :: more, .cons htakes hfills, ?_⟩
    rw [namedValues, List.map_cons, hsame]
    exact congrArg _ hmore

theorem exists_of_forall₂_append {specs more : List FieldSpec} {fields : List Field}
    (h : List.Forall₂ FieldSpec.Admits (specs ++ more) fields) :
    ∃ head tail, fields = head ++ tail ∧ List.Forall₂ FieldSpec.Admits specs head ∧
      List.Forall₂ FieldSpec.Admits more tail := by
  induction specs generalizing fields with
  | nil => exact ⟨[], fields, rfl, .nil, h⟩
  | cons spec specs ih =>
    cases h with
    | cons hfield hrest =>
      obtain ⟨head, tail, rfl, hhead, htail⟩ := ih hrest
      exact ⟨_ :: head, tail, rfl, .cons hfield hhead, htail⟩

theorem namedValues_append (fields more : List Field) :
    namedValues (fields ++ more) = namedValues fields ++ namedValues more :=
  List.map_append

theorem exists_fillsChains {chains : List (List FieldSpec)} {lengths : List Nat}
    {fields : List Field}
    (hlengths : List.Forall₂ (fun length (chain : List FieldSpec) => length ≤ chain.length)
      lengths chains)
    (h : List.Forall₂ FieldSpec.Admits (List.zipWith List.take lengths chains).flatten fields)
    {tokens : List Token}
    (hk : tokens.map Token.kind = fields.flatMap fun field => field.value.kinds) :
    ∃ taken, FillsChains chains lengths tokens taken ∧ namedValues taken = namedValues fields := by
  induction hlengths generalizing fields tokens with
  | nil =>
    cases h
    obtain rfl : tokens = [] := by simpa using hk
    exact ⟨[], .nil, rfl⟩
  | cons hle _ ih =>
    obtain ⟨first, rest, rfl, hfirst, hrest⟩ := exists_of_forall₂_append h
    rw [List.flatMap_append] at hk
    obtain ⟨head, tail, rfl, hhead, htail⟩ := List.map_eq_append_iff.mp hk
    obtain ⟨taken, hfills, hsame⟩ := exists_fills hfirst hhead
    obtain ⟨more, hchains, hmore⟩ := ih hrest htail
    refine ⟨taken ++ more, .cons hle hfills hchains, ?_⟩
    rw [namedValues_append, namedValues_append, hsame, hmore]

theorem Keyword.eq_objects_of_chains {k : Keyword} {form : Option Form} {shape : Shape}
    (h : k.shape? form = some shape) (hchains : shape.chains = [sortChain, typeChain]) :
    k = .objects := by
  revert h
  cases k <;> rcases form with _ | _ | _ <;> rintro ⟨⟩ <;> first | rfl | cases hchains

theorem Keyword.ne_map_of_shape?_none {k : Keyword} {shape : Shape}
    (h : k.shape? none = some shape) : k ≠ .tilemap ∧ k ≠ .map := by
  revert h
  cases k <;> rintro ⟨⟩ <;> decide

theorem exists_splits {shape : Shape} {lengths : List Nat} {fields : List Field}
    (hlengths : List.Forall₂ (fun length (chain : List FieldSpec) => length ≤ chain.length)
      lengths shape.chains)
    (h : List.Forall₂ FieldSpec.Admits (shape.present lengths) fields) {tokens : List Token}
    (hk : tokens.map Token.kind = fields.flatMap fun field => field.value.kinds) :
    ∃ taken, shape.Splits lengths tokens taken ∧ namedValues taken = namedValues fields := by
  obtain ⟨first, rest, rfl, hfirst, hrest⟩ := exists_of_forall₂_append h
  rw [List.flatMap_append] at hk
  obtain ⟨head, tail, rfl, hhead, htail⟩ := List.map_eq_append_iff.mp hk
  obtain ⟨required, hfills, hrequired⟩ := exists_fills hfirst hhead
  obtain ⟨optional, hchains, hoptional⟩ := exists_fillsChains hlengths hrest htail
  refine ⟨required ++ optional, .parts hfills hchains, ?_⟩
  rw [namedValues_append, namedValues_append, hrequired, hoptional]

theorem lexed_of_forall₂_admits {specs : List FieldSpec} {fields : List Field}
    (h : List.Forall₂ FieldSpec.Admits specs fields) :
    ∀ kind ∈ fields.flatMap fun field => field.value.kinds, kind.Lexed := by
  induction h with
  | nil => simp
  | cons hfield _ ih =>
    rw [List.flatMap_cons]
    exact List.forall_mem_append.mpr ⟨hfield.2.lexed, ih⟩

namespace Statement.WellFormed

variable {s : Statement} {shape : Shape} {lengths : List Nat} {tokens : List Token}
  {taken : List Field}

/-- The split of a well-formed declaration is the longest one. -/
theorem splitsLongest (h : s.WellFormed) (hshape : s.keyword.shape? s.form = some shape)
    (hsplits : shape.Splits lengths tokens taken) (hsame : namedValues taken = namedValues s.fields)
    (hlexed : ∀ token ∈ tokens, token.kind.Lexed) : shape.SplitsLongest lengths tokens taken := by
  rcases Keyword.shape?_cases hshape with rfl | ⟨hp, hone | hchains⟩
  · exact hsplits.longest_of_no_chain rfl
  · exact hsplits.longest_of_one_chain hp hone
  · have hobjects := Keyword.eq_objects_of_chains hshape hchains
    rw [hobjects] at hshape
    apply (hsplits.longest_iff_of_objects hshape hlexed).mpr
    intro content hvalue
    rw [valueAt?_eq_of_namedValues hsame] at hvalue
    exact h.sorted hobjects hvalue

/-- The tokens of a well-formed declaration select its form. -/
theorem selects (h : s.WellFormed) (hshape : s.keyword.shape? s.form = some shape)
    (hsplits : shape.Splits lengths tokens taken)
    (hsame : namedValues taken = namedValues s.fields) : s.keyword.Selects tokens s.form := by
  cases hf : s.form with
  | none =>
    rw [hf] at hshape
    obtain ⟨htilemap, hmap⟩ := Keyword.ne_map_of_shape?_none hshape
    exact .none htilemap hmap
  | some form =>
    rw [hf] at hshape
    rw [hsplits.selects_iff hshape, h.form hf]
    simp only [AnnounceTmx, valueAt?_eq_of_namedValues hsame]

/-- A declaration is read from the tokens that it is printed as. -/
theorem declares (h : s.WellFormed) {opener : Token} (hopener : opener.kind = .keyword s.keyword)
    (hk : tokens.map Token.kind = s.kinds) (terminator : Token) :
    ∃ t, Statement.ofTokens opener tokens terminator = .ok t ∧ t.SameShape s ∧
      t.line = opener.line := by
  obtain ⟨shape, lengths, hshape, hlengths, hfields⟩ := h.fields
  have hlexed : ∀ token ∈ tokens, token.kind.Lexed := by
    intro token hm
    have hkind : token.kind ∈ s.kinds := hk ▸ List.mem_map_of_mem hm
    exact lexed_of_forall₂_admits hfields _ hkind
  obtain ⟨taken, hsplits, hsame⟩ := exists_splits hlengths hfields hk
  have hlong := h.splitsLongest hshape hsplits hsame hlexed
  have hderives : Statement.Derives ⟨s.keyword, s.form, taken, opener.line,
      ⟨opener.span.start, stopOf opener taken⟩⟩ opener tokens :=
    ⟨hopener, h.selects hshape hsplits hsame, ⟨shape, lengths, hshape, hlong⟩, rfl, rfl⟩
  exact ⟨_, ofTokens_eq_ok_iff.mpr hderives, ⟨rfl, rfl, hsame⟩, rfl⟩

end Statement.WellFormed

end ResourceDecl
