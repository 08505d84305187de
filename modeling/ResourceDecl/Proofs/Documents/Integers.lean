import ResourceDecl.Proofs.Documents.Alone
import ResourceDecl.Proofs.Grammar.Integers
import ResourceDecl.Proofs.Grammar.Tries

/-!
# Integers from text to value

An integer is read in two steps: the scanner keeps its digits, and a field computes its value. The
steps agree with the grammar of integers, for texts and integers of any size.

* `int_alone_iff`, `size_alone_iff`: which texts are read as a single integer or a single size.
* `SourceLine.Tries`: on which tokens a line tries a position.
* `Field.TakenFrom`: each field of a declaration was taken by a position.
* `integers_are_exact`: the result.
-/

namespace ResourceDecl

open Text

/-! ## Texts that are a number -/

section Alone

variable {text : List Char}

theorem not_mem_of_not_blank (h : ∀ c ∈ text, isBlank c = false ∧ c ≠ '#' ∧ c ≠ '/') :
    '\n' ∉ text := by
  intro hm
  exact absurd (h _ hm).1 (by decide)

/-- Where no blank and no comment stands, a single token reaches to the end. -/
theorem lexes_one_iff {first : Char} {tail : List Char} {kind : TokenKind}
    (h : ∀ c ∈ first :: tail, isBlank c = false ∧ c ≠ '#' ∧ c ≠ '/') :
    (∃ comment, Lexes (first :: tail) [kind] comment) ↔ readLexeme first tail = (.ok kind, []) := by
  have hskip {text : List Char} (htext : ∀ c ∈ text, isBlank c = false ∧ c ≠ '#' ∧ c ≠ '/') :
      skipBlanks text = text := by
    cases text with
    | nil => rfl
    | cons c text =>
      obtain ⟨hblank, -⟩ := htext c List.mem_cons_self
      refine skipBlanks_cons (Bool.eq_false_iff.mpr fun hinline => ?_) text
      rw [isBlank_of_isInlineBlank hinline] at hblank
      cases hblank
  have hcomment {c : Char} {rest : List Char} (hc : c ≠ '#' ∧ c ≠ '/') : ¬ opensComment c rest := by
    simp [opensComment, hc.1, hc.2]
  constructor
  · rintro ⟨comment, hlexes⟩
    cases hlexes with
    | token hs _ hr hnext =>
      have hs' := hskip h
      rw [hs'] at hs
      obtain ⟨rfl, rfl⟩ := List.cons.inj hs
      have hsuffix := suffix_of_readLexeme_eq hs' hr
      have hfree : ∀ c ∈ _, isBlank c = false ∧ c ≠ '#' ∧ c ≠ '/' := fun c hc =>
        h c (hsuffix.mem hc)
      cases hnext with
      | blank hend =>
        rw [hskip hfree] at hend
        rw [hr, hend]
      | comment hend hopens =>
        rw [hskip hfree] at hend
        rw [hend] at hfree
        exact absurd hopens (hcomment (hfree _ List.mem_cons_self).2)
  · intro hr
    exact ⟨none, .token (hskip h) (hcomment (h first List.mem_cons_self).2) hr (.blank rfl)⟩

/-- A text is read as a single number if it is a literal of it. -/
theorem number_alone_iff (hne : text ≠ [])
    (h : ∀ c ∈ text, isBlank c = false ∧ c ≠ '#' ∧ c ≠ '/') {kind : TokenKind}
    (hkind : kind.isNumber) :
    (TokenStream.ofSource (String.ofList text)).tokens.map Token.kind = [kind, .done] ∧
        (TokenStream.ofSource (String.ofList text)).problems = [] ↔ NumberLiteral text kind := by
  have hline := not_mem_of_not_blank h
  obtain ⟨first, tail, rfl⟩ := List.exists_cons_of_ne_nil hne
  refine (kinds_iff_lexes hline).trans ((lexes_one_iff h).trans ⟨fun hr => ?_, fun hnumber => ?_⟩)
  · obtain ⟨text, heq, hliteral⟩ :=
      literal_of_readLexeme hr
    rw [List.append_nil] at heq
    rw [heq]
    exact hliteral.number_of_isNumber hkind
  · have hread := readNumber_complete hnumber (stopsAt_nil _)
    rw [List.append_nil] at hread
    obtain ⟨c, rest, heq, hstart⟩ := hnumber.exists_numeral
    obtain ⟨rfl, rfl⟩ := List.cons.inj heq
    rw [hstart.readLexeme_eq.2, hread]

theorem int_alone_iff (hne : text ≠ [])
    (h : ∀ c ∈ text, isBlank c = false ∧ c ≠ '#' ∧ c ≠ '/') {numeral : String} :
    (TokenStream.ofSource (String.ofList text)).tokens.map Token.kind = [.int numeral, .done] ∧
        (TokenStream.ofSource (String.ofList text)).problems = [] ↔
      (∃ n, Numeral text n) ∧ numeral = unseparated text := by
  rw [number_alone_iff hne h rfl]
  constructor
  · intro hnumber
    cases hnumber with
    | int hn => exact ⟨⟨_, hn⟩, rfl⟩
  · rintro ⟨⟨n, hn⟩, rfl⟩
    exact .int hn

theorem size_alone_iff (hne : text ≠ [])
    (h : ∀ c ∈ text, isBlank c = false ∧ c ≠ '#' ∧ c ≠ '/') {numeral : String}
    {unit : SizeUnit} :
    (TokenStream.ofSource (String.ofList text)).tokens.map Token.kind =
          [.size numeral unit, .done] ∧
        (TokenStream.ofSource (String.ofList text)).problems = [] ↔
      ∃ body c, text = body ++ [c] ∧ (∃ n, Numeral body n) ∧ c ∈ unit.letters ∧
        numeral = unseparated body := by
  rw [number_alone_iff hne h rfl]
  constructor
  · intro hnumber
    cases hnumber with
    | size hn hc => exact ⟨_, _, rfl, ⟨_, hn⟩, hc, rfl⟩
  · rintro ⟨body, c, rfl, ⟨n, hn⟩, hc, rfl⟩
    exact .size hn hc

end Alone

/-! ## Positions that a line tries -/

/-- The tokens of the line are taken as fields, and the reader tries a position on some of them;
`final` ends the last line. -/
inductive SourceLine.Tries (line : SourceLine) (final : Token) (spec : FieldSpec)
    (rest : List Token) : Prop
  | reads {opener : Token} {tokens : List Token} {k : Keyword} {form : Option Form}
      {shape : Shape} :
      line.held.problem = none → line.held.tokens = opener :: tokens →
        opener.kind = .keyword k → k.Selects tokens form → k.shape? form = some shape →
        shape.Tries k (line.run final).terminator tokens spec rest → Tries line final spec rest

namespace SourceLine.Tries

variable {line : SourceLine} {final : Token} {spec : FieldSpec} {rest more : List Token}
  {field : Field} {problem : Problem}

theorem subset (h : line.Tries final spec rest) : rest ⊆ line.held.tokens := by
  cases h with
  | reads _ htokens _ _ _ hshape =>
    rw [htokens]
    exact (hshape.suffix.trans (List.suffix_cons _ _)).subset

theorem clean (h : line.Tries final spec rest) : line.held.problem = none := by
  cases h with
  | reads hclean => exact hclean

theorem outcome?_eq (h : line.Tries final spec rest) :
    ∃ opener k form shape tokens, shape.Tries k (line.run final).terminator tokens spec rest ∧
      (line.run final).outcome? =
        some (Statement.ofShape opener (line.run final).terminator k form shape tokens) := by
  cases h with
  | @reads opener tokens k form shape hclean htokens hk hselects hshape htries =>
    have hread := SourceLine.ne_unreadable hclean
    rw [htokens] at hread
    refine ⟨opener, k, form, shape, tokens, htries, ?_⟩
    rw [← ofTokens_of_selects _ hk hselects hshape, ← Run.outcome?_cons hread, ← htokens]
    rfl

/-- The line has no declaration, and it has the problem with the token. -/
theorem problem?_eq (h : line.Tries final spec rest)
    (herror : takeField spec rest = .error problem) :
    line.problem? final = some problem ∧ line.statement? = none := by
  obtain ⟨opener, k, form, shape, tokens, htries, houtcome⟩ := h.outcome?_eq
  rw [htries.ofShape_error herror] at houtcome
  rw [problem?, h.clean, ← line.statement?_run final, Run.problem?, Run.statement?, houtcome]
  exact ⟨rfl, rfl⟩

/-- If the line has a declaration, then the field is one of its fields. -/
theorem mem_fields (h : line.Tries final spec rest)
    (hfield : takeField spec rest = .ok (some (field, more))) {s : Statement}
    (hs : line.statement? = some s) : field ∈ s.fields := by
  obtain ⟨opener, k, form, shape, tokens, htries, houtcome⟩ := h.outcome?_eq
  rw [← line.statement?_run final, Run.statement?_eq_some_iff, houtcome] at hs
  exact htries.mem_fields hfield (Option.some.inj hs)

end SourceLine.Tries

/-! ## Fields of declarations -/

/-- The field was taken by a position from some of the tokens. -/
def Field.TakenFrom (field : Field) (tokens : List Token) : Prop :=
  ∃ (spec : FieldSpec) (head : List Token), head ⊆ tokens ∧ spec.Takes head field

theorem Field.TakenFrom.mono {field : Field} {tokens others : List Token}
    (h : field.TakenFrom tokens) (hsub : tokens ⊆ others) : field.TakenFrom others := by
  obtain ⟨spec, head, hhead, htakes⟩ := h
  exact ⟨spec, head, List.Subset.trans hhead hsub, htakes⟩

theorem Fills.takenFrom {specs : List FieldSpec} {tokens : List Token} {fields : List Field}
    (h : Fills specs tokens fields) : ∀ field ∈ fields, field.TakenFrom tokens := by
  induction h with
  | nil => simp
  | cons htakes _ ih =>
    refine List.forall_mem_cons.mpr
      ⟨⟨_, _, List.subset_append_left _ _, htakes⟩, fun field hm => ?_⟩
    exact (ih field hm).mono (List.subset_append_right _ _)

theorem FillsChains.takenFrom {chains : List (List FieldSpec)} {lengths : List Nat}
    {tokens : List Token} {fields : List Field} (h : FillsChains chains lengths tokens fields) :
    ∀ field ∈ fields, field.TakenFrom tokens := by
  induction h with
  | nil => simp
  | cons _ hfills _ ih =>
    refine List.forall_mem_append.mpr ⟨fun field hm => ?_, fun field hm => ?_⟩
    · exact (hfills.takenFrom field hm).mono (List.subset_append_left _ _)
    · exact (ih field hm).mono (List.subset_append_right _ _)

theorem Shape.Splits.takenFrom {shape : Shape} {lengths : List Nat} {tokens : List Token}
    {fields : List Field} (h : shape.Splits lengths tokens fields) :
    ∀ field ∈ fields, field.TakenFrom tokens := by
  cases h with
  | parts hrequired hoptional =>
    refine List.forall_mem_append.mpr ⟨fun field hm => ?_, fun field hm => ?_⟩
    · exact (hrequired.takenFrom field hm).mono (List.subset_append_left _ _)
    · exact (hoptional.takenFrom field hm).mono (List.subset_append_right _ _)

/-- A field with integers was taken from one token, by a position that takes integers. -/
theorem Field.TakenFrom.exists_token {field : Field} {tokens : List Token}
    (h : field.TakenFrom tokens) (hinteger : field.value.integers ≠ []) :
    ∃ token ∈ tokens, ∃ accepts : FieldClass, accepts.takesIntegers ∧
      field.span = token.span ∧ accepts.value? token.kind = .ok (some field.value) := by
  obtain ⟨spec, head, hsub, htakes⟩ := h
  cases htakes with
  | @one token value haccepts =>
    refine ⟨token, hsub List.mem_cons_self, spec.accepts, ?_, rfl,
      FieldClass.value?_eq_ok_some_iff.mpr haccepts⟩
    generalize spec.accepts = accepts at haccepts ⊢
    generalize token.kind = kind at haccepts
    cases haccepts with
    | int | tiles | size | time | times | timeRows => rfl
    | ident | reference | str | quotedReference | sortKey | choice => exact absurd rfl hinteger
  | strings => exact absurd rfl hinteger

/-- A declaration with the number of a line is the declaration of the line. -/
theorem Document.statement?_of_mem {source : String} {line : SourceLine}
    (hm : line ∈ sourceLines source.toList) {s : Statement}
    (hs : s ∈ (ofSource source).program) (hline : s.line = line.number) :
    line.statement? = some s := by
  obtain ⟨other, hother, hstatement⟩ := exists_line_of_mem_program hs
  have hnumber := SourceLine.line_of_statement? hstatement
  rwa [eq_of_number_eq hother hm (hnumber.symm.trans hline)] at hstatement

/-! ## Exact integers -/

/-- A field with integers has the value of the text that it stands for, and its integers fit. -/
theorem Document.integers_of_field {source : String} {s : Statement} {field : Field}
    (hs : s ∈ (ofSource source).program) (hm : field ∈ s.fields)
    (hinteger : field.value.integers ≠ []) :
    ∃ (accepts : FieldClass) (text : List Char), slice? source.toList field.span = some text ∧
      (∀ other, accepts.Denotes text other ↔ other = field.value) ∧
      ∀ n ∈ field.value.integers, FitsInt64 n := by
  obtain ⟨line, hline, hstatement⟩ := exists_line_of_mem_program hs
  obtain ⟨opener, tokens, htokens, hderives, hread⟩ :=
    SourceLine.derives_of_statement? hstatement
  obtain ⟨-, -, ⟨shape, lengths, -, hsplits⟩, -, -⟩ := hderives
  obtain ⟨token, htoken, accepts, hclass, hspan, hvalue⟩ :=
    (hsplits.splits.takenFrom field hm).exists_token hinteger
  have hheld : token ∈ line.held.tokens := by
    rw [htokens]
    exact List.mem_cons_of_mem _ htoken
  have hlexed := (hread token (List.mem_cons_of_mem _ htoken)).1
  have hknown : token.kind ≠ .unreadable := by
    intro hk
    rw [hk] at hlexed
    exact hlexed
  obtain ⟨text, hslice, hliteral⟩ := SourceLine.exists_literal hline hheld hknown
  have htakes : accepts.value? token.kind ≠ .ok none := by
    rw [hvalue]
    nofun
  obtain ⟨value, hdenotes, hfits, hunfit⟩ := FieldClass.value?_exact hclass hliteral htakes
  by_cases hall : ∀ n ∈ value.integers, FitsInt64 n
  · rw [hvalue] at hfits
    obtain rfl := Option.some.inj (Except.ok.inj (hfits hall))
    exact ⟨accepts, text, by rw [hspan, hslice], hdenotes, hall⟩
  · obtain ⟨_, _, -, -, -, herror⟩ := hunfit (by simpa using hall)
    rw [hvalue] at herror
    cases herror

/-- Integers are read exactly.

* A text without white space and without the characters that open comments is a single integer if
  and only if it is a numeral, and a single size if and only if it is a numeral and a letter. The
  token keeps the text without its underscores.
* Where a line tries a position that takes integers, on a token that it takes, the field has the
  value that the text of the token denotes, if all integers in it fit 64 bits. If one of them does
  not, then such an integer is all that is wrong with the line, and the line declares nothing.
* All integers in the fields of declarations are read so. -/
theorem integers_are_exact :
    (∀ text : List Char, text ≠ [] → (∀ c ∈ text, isBlank c = false ∧ c ≠ '#' ∧ c ≠ '/') →
      let stream := TokenStream.ofSource (String.ofList text)
      (∀ numeral, stream.tokens.map Token.kind = [.int numeral, .done] ∧ stream.problems = [] ↔
        (∃ n, Numeral text n) ∧ numeral = unseparated text) ∧
      ∀ numeral unit,
        stream.tokens.map Token.kind = [.size numeral unit, .done] ∧ stream.problems = [] ↔
          ∃ body c, text = body ++ [c] ∧ (∃ n, Numeral body n) ∧ c ∈ unit.letters ∧
            numeral = unseparated body) ∧
    (∀ source : String, ∀ line ∈ sourceLines source.toList, ∀ spec token rest,
      line.Tries (endToken source.toList) spec (token :: rest) → spec.accepts.takesIntegers →
      spec.accepts.value? token.kind ≠ .ok none →
      ∃ text value, slice? source.toList token.span = some text ∧
        (∀ other, spec.accepts.Denotes text other ↔ other = value) ∧
        ((∀ n ∈ value.integers, FitsInt64 n) →
          takeField spec (token :: rest) = .ok (some (⟨spec.name, value, token.span⟩, rest)) ∧
          ∀ s ∈ (Document.ofSource source).program, s.line = line.number →
            ⟨spec.name, value, token.span⟩ ∈ s.fields) ∧
        ((∃ n ∈ value.integers, ¬ FitsInt64 n) →
          (∃ numeral n problem, n ∈ value.integers ∧ ¬ FitsInt64 n ∧
            FieldClass.Keeps numeral n ∧ problem = token.problem (.overflow numeral) ∧
            problem.cause.kind.code = "rescomp::semantic" ∧
            (Document.ofSource source).problems.filter (fun p => p.line == line.number) =
              [problem]) ∧
          ∀ s ∈ (Document.ofSource source).program, s.line ≠ line.number)) ∧
    ∀ source : String, ∀ s ∈ (Document.ofSource source).program, ∀ field ∈ s.fields,
      field.value.integers ≠ [] →
      ∃ (accepts : FieldClass) (text : List Char), slice? source.toList field.span = some text ∧
        (∀ other, accepts.Denotes text other ↔ other = field.value) ∧
        ∀ n ∈ field.value.integers, FitsInt64 n := by
  refine ⟨fun text hne hfree => ⟨fun _ => int_alone_iff hne hfree, fun _ _ =>
    size_alone_iff hne hfree⟩, fun source line hline spec token rest htries hclass htakes => ?_,
    fun source s hs field hm hinteger => Document.integers_of_field hs hm hinteger⟩
  have hheld : token ∈ line.held.tokens := htries.subset List.mem_cons_self
  have hknown := SourceLine.ne_unreadable htries.clean token hheld
  obtain ⟨text, hslice, hliteral⟩ := SourceLine.exists_literal hline hheld hknown
  obtain ⟨value, hdenotes, hfits, hunfit⟩ := FieldClass.value?_exact hclass hliteral htakes
  refine ⟨text, value, hslice, hdenotes, fun hall => ?_, fun hsome => ?_⟩
  · have haccepts := FieldClass.accepts_of_value? (hfits hall)
    have htake := takeField_one haccepts rest
    refine ⟨htake, fun s hs hnumber => ?_⟩
    exact htries.mem_fields htake (Document.statement?_of_mem hline hs hnumber)
  · obtain ⟨numeral, n, hn, hout, hkeeps, hvalue⟩ := hunfit hsome
    have herror : takeField spec (token :: rest) = .error (token.problem (.overflow numeral)) :=
      takeField_of_value?_error hvalue rest
    obtain ⟨hproblem, hnone⟩ := htries.problem?_eq herror
    refine ⟨⟨numeral, n, _, hn, hout, hkeeps, rfl, rfl,
      Document.filter_problems hline hproblem⟩, ?_⟩
    intro s hs hnumber
    rw [Document.statement?_of_mem hline hs hnumber] at hnone
    cases hnone

/-- A width one above the greatest integer of 64 bits, and a size with a separator. -/
theorem integers_are_exact_sprite :
    let source := "SPRITE s \"a\" 9_223_372_036_854_775_808 2"
    let token : Token := ⟨.int "9223372036854775808", ⟨13, 38⟩, 1, 14⟩
    let height : Token := ⟨.int "2", ⟨39, 40⟩, 1, 40⟩
    let line : SourceLine := ⟨1, 0, source.toList, true⟩
    line ∈ sourceLines source.toList ∧
      line.Tries (endToken source.toList) ⟨.width, .size⟩ [token, height] ∧
      FieldClass.size.value? token.kind ≠ .ok none ∧
      (∃ numeral n problem, ¬ FitsInt64 n ∧ FieldClass.Keeps numeral n ∧
        problem = token.problem (.overflow numeral) ∧
        (Document.ofSource source).problems.filter (fun p => p.line == 1) = [problem]) ∧
      (∃ n, Numeral "-1_0".toList n) ∧
      (TokenStream.ofSource "-1_0P").tokens.map Token.kind = [.size "-10" .pixels, .done] := by
  intro source token height line
  have hline : line ∈ sourceLines source.toList := by decide +kernel
  have htokens : line.held.tokens =
      [⟨.keyword .sprite, ⟨0, 6⟩, 1, 1⟩, ⟨.ident "s", ⟨7, 8⟩, 1, 8⟩, ⟨.string "a", ⟨9, 12⟩, 1, 10⟩,
        token, height] := by decide +kernel
  have htries : line.Tries (endToken source.toList) ⟨.width, .size⟩ [token, height] :=
    .reads (by decide +kernel) htokens rfl (.none (by decide) (by decide)) rfl
      (.required (.later rfl (.later rfl .here)))
  have htakes : FieldClass.size.value? token.kind ≠ .ok none := by decide +kernel
  have hnumeral : Numeral "9_223_372_036_854_775_808".toList 9223372036854775808 := by
    have hread : readInteger "9_223_372_036_854_775_808".toList =
        (.ok "9223372036854775808", []) := by decide +kernel
    obtain ⟨body, n, hbody, hn, -, -⟩ := readInteger_sound (.inr rfl) hread
    obtain rfl : _ = body := hbody.trans (List.append_nil body)
    have hsigned := hn.readSigned_eq
    rwa [show n = 9223372036854775808 from Option.some.inj (hsigned.symm.trans (by decide))] at hn
  have hten : Numeral "-1_0".toList (-10) :=
    .negative (.positive rfl (by decide) (.separated rfl (.done 10)))
  obtain ⟨halone, htried, -⟩ := integers_are_exact
  obtain ⟨text, value, hslice, hdenotes, -, hunfit⟩ :=
    htried source line hline _ token _ htries rfl htakes
  have htext : slice? source.toList token.span = some "9_223_372_036_854_775_808".toList := by
    decide +kernel
  obtain rfl := Option.some.inj (htext.symm.trans hslice)
  obtain rfl := (hdenotes _).mp (.tiles hnumeral)
  obtain ⟨⟨numeral, n, problem, -, hout, hkeeps, hproblem, -, hproblems⟩, -⟩ :=
    hunfit ⟨_, List.mem_cons_self, by decide⟩
  refine ⟨hline, htries, htakes, ⟨numeral, n, problem, hout, hkeeps, hproblem, hproblems⟩,
    ⟨_, hten⟩, ?_⟩
  have hfree : ∀ c ∈ "-1_0P".toList, isBlank c = false ∧ c ≠ '#' ∧ c ≠ '/' := by
    simp [isBlank, blankRanges]
  exact (((halone _ (by decide) hfree).2 _ _).mpr ⟨_, 'P', rfl, ⟨_, hten⟩, by decide, rfl⟩).1

end ResourceDecl
