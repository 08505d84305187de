import ResourceDecl.Document
import ResourceDecl.Proofs.Documents.Runs

/-!
# Reading with a cursor and line by line

A cursor sees all tokens ahead, those of later lines too. What it reads in a line is what the line
gives alone (`Mirrors`), and behind it the cursor stands in front of the next line. So a document is
read run by run.

* `mirrors_readField`, `mirrors_readStatement`: a step of reading, and a declaration.
* `Document.ofCursor_line`: the step, one line of tokens and what stands behind it.
* `Document.ofTokens_eq_runs`: by induction on the cutting, all lines.
-/

namespace ResourceDecl

open TokenReader

/-! ## Lines and what stands behind them -/

/-- None of the tokens ends a line. -/
def Unended (tokens : List Token) : Prop :=
  ∀ token ∈ tokens, token.kind ≠ .newline ∧ token.kind ≠ .done

theorem unended_nil : Unended [] := by simp [Unended]

theorem unended_cons {token : Token} {tokens : List Token} :
    Unended (token :: tokens) ↔ (token.kind ≠ .newline ∧ token.kind ≠ .done) ∧ Unended tokens :=
  List.forall_mem_cons

theorem isTerminator_iff {kind : TokenKind} :
    kind.isTerminator ↔ kind = .newline ∨ kind = .done := by
  simp [TokenKind.isTerminator]

/-- Nothing follows, or a token that ends a line. -/
def EndsLine (behind : List Token) : Prop :=
  ∀ token ∈ behind.head?, token.kind.isTerminator

namespace Cursor

/-- The cursor in front of other tokens. -/
def facing (cursor : Cursor) (tokens : List Token) : Cursor :=
  { cursor with ahead := tokens }

variable (cursor : Cursor) {line behind : List Token} {token : Token}

@[simp] theorem peek_facing_cons (token : Token) (tokens : List Token) :
    (cursor.facing (token :: tokens)).peek = token := rfl

theorem peek_facing_append (line behind : List Token) :
    (cursor.facing (line ++ behind)).peek = line.headD (cursor.facing behind).peek := by
  cases line <;> rfl

theorem isTerminator_peek_facing (hbehind : EndsLine behind) :
    (cursor.facing behind).peek.kind.isTerminator := by
  cases behind with
  | nil => exact isTerminator_iff.mpr (.inr cursor.kind_final)
  | cons token => exact hbehind token rfl

theorem advance_facing_cons (hkind : token.kind ≠ .done) (tokens : List Token) :
    (cursor.facing (token :: tokens)).advance = cursor.facing tokens := by
  have hend : (cursor.facing (token :: tokens)).atEnd = false := beq_eq_false_iff_ne.mpr hkind
  rw [advance, hend]
  rfl

theorem skipNewlines_of_ne (h : cursor.peek.kind ≠ .newline) : cursor.skipNewlines = cursor := by
  rw [skipNewlines, dif_neg h]

theorem skipNewlines_of_eq (h : cursor.peek.kind = .newline) :
    cursor.skipNewlines = cursor.advance.skipNewlines := by
  rw [skipNewlines, dif_pos h]

theorem atEnd_iff : cursor.atEnd ↔ cursor.peek.kind = .done :=
  beq_iff_eq

theorem skipLine_facing (hline : Unended line) (hbehind : EndsLine behind) :
    (cursor.facing (line ++ behind)).skipLine = cursor.facing behind := by
  induction line with
  | nil => rw [List.nil_append, skipLine, dif_pos (cursor.isTerminator_peek_facing hbehind)]
  | cons token line ih =>
    obtain ⟨htoken, hline⟩ := unended_cons.mp hline
    have hne : ¬ token.kind.isTerminator := by simpa [isTerminator_iff] using htoken
    rw [List.cons_append, skipLine, dif_neg (by rwa [peek_facing_cons]),
      advance_facing_cons cursor htoken.2, ih hline]

theorem synchronize_facing (hline : Unended line) (hbehind : EndsLine behind) :
    (cursor.facing (line ++ behind)).synchronize = (cursor.facing behind).advance := by
  rw [synchronize, skipLine_facing cursor hline hbehind]

theorem lineHasFault_facing (hline : Unended line) (hbehind : EndsLine behind) :
    (cursor.facing (line ++ behind)).lineHasFault =
      line.any fun token => token.kind == .unreadable := by
  have hread : ∀ token ∈ line, (!token.kind.isTerminator) = true := fun token hm => by
    simpa [Bool.eq_false_iff, isTerminator_iff] using hline token hm
  have hstop : behind.takeWhile (fun token => !token.kind.isTerminator) = [] := by
    cases behind with
    | nil => rfl
    | cons token => simp [hbehind token rfl]
  show ((line ++ behind).takeWhile _).any _ = _
  rw [List.takeWhile_append_of_pos hread, hstop, List.append_nil]

end Cursor

/-! ## Steps of reading -/

/-- A reader gives what is given by the tokens of the line alone, and its cursor stands where they
have been taken. -/
inductive Mirrors (cursor : Cursor) (behind : List Token) {α : Type} :
    Except Problem (α × List Token) → EStateM.Result Problem Cursor α → Prop
  | ok (a : α) {rest : List Token} : Unended rest →
      Mirrors cursor behind (.ok (a, rest)) (.ok a (cursor.facing (rest ++ behind)))
  | error (problem : Problem) {rest : List Token} : Unended rest →
      Mirrors cursor behind (.error problem) (.error problem (cursor.facing (rest ++ behind)))

section Steps

variable {cursor : Cursor} {line behind : List Token} {α β : Type}

theorem Mirrors.bind {given : Except Problem (α × List Token)} {read : TokenReader α}
    {here : Cursor} {f : α × List Token → Except Problem (β × List Token)}
    {next : α → TokenReader β} (h : Mirrors cursor behind given (read here))
    (hnext : ∀ a rest, Unended rest →
      Mirrors cursor behind (f (a, rest)) (next a (cursor.facing (rest ++ behind)))) :
    Mirrors cursor behind (given >>= f) ((read >>= next) here) := by
  rw [bind_apply]
  generalize read here = result at h ⊢
  cases h with
  | ok a hrest => exact hnext a _ hrest
  | error problem hrest => exact .error problem hrest

/-! ### Fields -/

theorem value?_of_isTerminator (accepts : FieldClass) {kind : TokenKind} (h : kind.isTerminator) :
    accepts.value? kind = .ok none := by
  rcases isTerminator_iff.mp h with rfl | rfl <;> cases accepts <;> rfl

theorem takeStrings_append (hbehind : EndsLine behind) (field : FieldName) (line : List Token) :
    takeStrings field (line ++ behind) =
      (takeStrings field line).map fun taken => (taken.1, taken.2 ++ behind) := by
  have hstop : behind.takeWhile Token.isString = [] ∧
      behind.dropWhile Token.isString = behind := by
    cases behind with
    | nil => exact ⟨rfl, rfl⟩
    | cons token =>
      have hnot : token.isString = false := by
        rcases isTerminator_iff.mp (hbehind token rfl) with hk | hk <;>
          simp [Token.isString, hk] <;> rfl
      simp [hnot]
  have htake (line : List Token) :
      (line ++ behind).takeWhile Token.isString = line.takeWhile Token.isString := by
    induction line with
    | nil => exact hstop.1
    | cons token line ih => rw [List.cons_append, List.takeWhile_cons, List.takeWhile_cons, ih]
  have hdrop (line : List Token) :
      (line ++ behind).dropWhile Token.isString = line.dropWhile Token.isString ++ behind := by
    induction line with
    | nil => exact hstop.2
    | cons token line ih =>
      rw [List.cons_append, List.dropWhile_cons, List.dropWhile_cons]
      split
      · exact ih
      · rfl
  rw [takeStrings, takeStrings, htake, hdrop]
  cases line.takeWhile Token.isString <;> rfl

/-- A field does not see what stands behind the line. -/
theorem takeField_append (hbehind : EndsLine behind) (spec : FieldSpec) (line : List Token) :
    takeField spec (line ++ behind) =
      (takeField spec line).map (Option.map fun taken => (taken.1, taken.2 ++ behind)) := by
  unfold takeField
  split
  · rw [takeStrings_append hbehind]
    rfl
  · cases line with
    | nil =>
      cases behind with
      | nil => rfl
      | cons token => simp [value?_of_isTerminator spec.accepts (hbehind token rfl), Except.map]
    | cons token line =>
      simp only [List.cons_append]
      rcases spec.accepts.value? token.kind with cause | _ | value <;> rfl

theorem takeField_suffix {spec : FieldSpec} {field : Field} {rest : List Token}
    (h : takeField spec line = .ok (some (field, rest))) : rest <:+ line := by
  unfold takeField at h
  split at h
  · rw [takeStrings] at h
    split at h
    · cases h
    · cases h
      exact List.dropWhile_suffix _
  · split at h
    · cases h
    · split at h
      · cases h
        exact List.suffix_cons _ _
      · cases h
      · cases h

/-- The field that stands next in a line, if it does, and what is left. -/
def takeNext (spec : FieldSpec) (line : List Token) : Except Problem (Option Field × List Token) :=
  (takeField spec line).map fun
    | some (field, rest) => (some field, rest)
    | none => (none, line)

variable (hbehind : EndsLine behind)

include hbehind

theorem mirrors_readField (hline : Unended line) (spec : FieldSpec) :
    Mirrors cursor behind (takeNext spec line) (readField spec (cursor.facing (line ++ behind))) := by
  rw [readField_apply]
  simp only [Cursor.facing, takeField_append hbehind, takeNext]
  rcases htaken : takeField spec line with problem | _ | ⟨field, rest⟩
  · exact .error problem hline
  · exact .ok none hline
  · exact .ok (some field) fun token hm => hline token ((takeField_suffix htaken).subset hm)

/-- The field that must stand next in a line. -/
def requireNext (keyword : Keyword) (terminator : Token) (spec : FieldSpec) (line : List Token) :
    Except Problem (Field × List Token) :=
  takeNext spec line >>= fun
    | (some field, rest) => .ok (field, rest)
    | (none, rest) =>
      let found := rest.headD terminator
      .error (found.problem (missingCause keyword spec found.kind))

theorem mirrors_readRequired (hline : Unended line) (keyword : Keyword) (spec : FieldSpec) :
    Mirrors cursor behind (requireNext keyword (cursor.facing behind).peek spec line)
      (readRequired keyword spec (cursor.facing (line ++ behind))) := by
  refine (mirrors_readField hbehind hline spec).bind fun field rest hrest => ?_
  cases field with
  | some field => exact .ok field hrest
  | none =>
    have hfound := cursor.peek_facing_append rest behind
    show Mirrors cursor behind (.error _) (.error ((cursor.facing (rest ++ behind)).peek.problem
      (missingCause keyword spec (cursor.facing (rest ++ behind)).peek.kind)) _)
    rw [hfound]
    exact .error _ hrest

omit hbehind in
theorem takeRequired_cons_eq (keyword : Keyword) (terminator : Token) (spec : FieldSpec)
    (specs : List FieldSpec) (line : List Token) :
    takeRequired keyword terminator (spec :: specs) line =
      requireNext keyword terminator spec line >>= fun taken =>
        takeRequired keyword terminator specs taken.2 >>= fun more =>
          .ok (taken.1 :: more.1, more.2) := by
  rw [takeRequired, requireNext, takeNext]
  rcases takeField spec line with problem | _ | ⟨field, rest⟩ <;> rfl

theorem mirrors_mapM_readRequired (hline : Unended line) (keyword : Keyword)
    (specs : List FieldSpec) :
    Mirrors cursor behind (takeRequired keyword (cursor.facing behind).peek specs line)
      (specs.mapM (readRequired keyword) (cursor.facing (line ++ behind))) := by
  induction specs generalizing line with
  | nil => exact .ok [] hline
  | cons spec specs ih =>
    rw [takeRequired_cons_eq, List.mapM_cons]
    refine (mirrors_readRequired hbehind hline keyword spec).bind fun field rest hrest => ?_
    exact (ih hrest).bind fun fields rest hrest => .ok (field :: fields) hrest

/-! ### Chains -/

/-- What was read and what is taken behind it. -/
def Optionals.and (read : Optionals) (taken : Taken) : Optionals where
  fields := read.fields ++ taken.fields
  missed := if taken.fields.isEmpty then read.missed ++ taken.missed else taken.missed

omit hbehind in
theorem takeChain_cons_eq (read : Optionals) (spec : FieldSpec) (specs : List FieldSpec)
    (line : List Token) :
    ((takeChain (spec :: specs) line).map fun taken => (read.and taken, taken.rest)) =
      takeNext spec line >>= fun
        | (some field, rest) => (takeChain specs rest).map fun taken =>
            (Optionals.and ⟨read.fields ++ [field], []⟩ taken, taken.rest)
        | (none, rest) => .ok ({ read with missed := read.missed ++ [spec] }, rest) := by
  rw [takeChain, takeNext]
  rcases takeField spec line with problem | _ | ⟨field, rest⟩
  · rfl
  · simp [bind, Except.bind, Except.map, pure, Except.pure, Optionals.and]
  · simp only [bind, Except.bind, Except.map]
    rcases takeChain specs rest with problem | taken
    · rfl
    · simp [pure, Except.pure, Optionals.and]

theorem mirrors_readChain (hline : Unended line) (read : Optionals) (specs : List FieldSpec) :
    Mirrors cursor behind ((takeChain specs line).map fun taken => (read.and taken, taken.rest))
      (readChain read specs (cursor.facing (line ++ behind))) := by
  induction specs generalizing read line with
  | nil =>
    have hsame : read.and ⟨[], [], line⟩ = read := by simp [Optionals.and]
    show Mirrors cursor behind (.ok (read.and ⟨[], [], line⟩, line)) _
    rw [hsame]
    exact .ok read hline
  | cons spec specs ih =>
    rw [takeChain_cons_eq, readChain]
    refine (mirrors_readField hbehind hline spec).bind fun field rest hrest => ?_
    cases field with
    | some field => exact ih hrest _
    | none => exact .ok _ hrest

omit hbehind in
theorem takeChains_cons_eq (read : Optionals) (chain : List FieldSpec)
    (chains : List (List FieldSpec)) (line : List Token) :
    ((takeChains (chain :: chains) line).map fun taken => (read.and taken, taken.rest)) =
      ((takeChain chain line).map fun taken => (read.and taken, taken.rest)) >>= fun found =>
        (takeChains chains found.2).map fun taken => (found.1.and taken, taken.rest) := by
  rw [takeChains]
  rcases takeChain chain line with problem | taken
  · rfl
  · simp only [bind, Except.bind, Except.map]
    rcases takeChains chains taken.rest with problem | more
    · rfl
    · simp only [pure, Except.pure, Optionals.and, Except.ok.injEq, Prod.mk.injEq, and_true,
        Optionals.mk.injEq, List.append_assoc, true_and]
      cases taken.fields <;> cases more.fields <;> simp

theorem mirrors_foldlM_readChain (hline : Unended line) (read : Optionals)
    (chains : List (List FieldSpec)) :
    Mirrors cursor behind ((takeChains chains line).map fun taken => (read.and taken, taken.rest))
      (chains.foldlM readChain read (cursor.facing (line ++ behind))) := by
  induction chains generalizing read line with
  | nil =>
    have hsame : read.and ⟨[], [], line⟩ = read := by simp [Optionals.and]
    show Mirrors cursor behind (.ok (read.and ⟨[], [], line⟩, line)) _
    rw [hsame]
    exact .ok read hline
  | cons chain chains ih =>
    rw [takeChains_cons_eq, List.foldlM_cons]
    exact (mirrors_readChain hbehind hline read chain).bind fun found rest hrest => ih hrest found

/-! ### Declarations -/

/-- The line must have nothing left. -/
def endNext (keyword : Keyword) (missed : List FieldSpec) :
    List Token → Except Problem (Unit × List Token)
  | [] => .ok ((), [])
  | token :: _ => .error (token.problem (trailingCause keyword missed token.kind))

theorem mirrors_readEnd (hline : Unended line) (keyword : Keyword) (missed : List FieldSpec) :
    Mirrors cursor behind (endNext keyword missed line)
      (readEnd keyword missed (cursor.facing (line ++ behind))) := by
  rw [readEnd, get_bind_apply]
  cases line with
  | nil =>
    rw [List.nil_append, if_pos (cursor.isTerminator_peek_facing hbehind)]
    exact .ok () unended_nil
  | cons token line =>
    have hne : ¬ token.kind.isTerminator := by
      simpa [isTerminator_iff] using (unended_cons.mp hline).1
    rw [List.cons_append, Cursor.peek_facing_cons, if_neg hne]
    exact .error _ hline

omit hbehind in
theorem ofShape_eq (opener terminator : Token) (keyword : Keyword) (form : Option Form)
    (shape : Shape) (line : List Token) :
    ((Statement.ofShape opener terminator keyword form shape line).map fun s =>
        (s, ([] : List Token))) =
      takeRequired keyword terminator shape.required line >>= fun required =>
        ((takeChains shape.chains required.2).map fun taken =>
            (Optionals.and {} taken, taken.rest)) >>= fun optional =>
          endNext keyword optional.1.missed optional.2 >>= fun stopped =>
            let fields := required.1 ++ optional.1.fields
            let stop := (fields.getLast?.map fun field => field.span.stop).getD opener.span.stop
            .ok (⟨keyword, form, fields, opener.line, ⟨opener.span.start, stop⟩⟩, stopped.2) := by
  have hand : Optionals.and {} = fun taken => ⟨taken.fields, taken.missed⟩ := by
    funext taken
    simp [Optionals.and]
  rw [Statement.ofShape, hand]
  rcases takeRequired keyword terminator shape.required line with problem | ⟨required, rest⟩
  · rfl
  · simp only [bind, Except.bind, Except.map]
    rcases takeChains shape.chains rest with problem | ⟨fields, missed, _ | ⟨token, left⟩⟩ <;> rfl

theorem mirrors_readShape (hline : Unended line) (opener : Token) (keyword : Keyword)
    (form : Option Form) (shape : Shape) :
    Mirrors cursor behind
      ((Statement.ofShape opener (cursor.facing behind).peek keyword form shape line).map fun s =>
        (s, []))
      (readShape opener keyword form shape (cursor.facing (line ++ behind))) := by
  rw [ofShape_eq, readShape]
  refine (mirrors_mapM_readRequired hbehind hline keyword _).bind fun required rest hrest => ?_
  refine (mirrors_foldlM_readChain hbehind hrest {} _).bind fun optional rest hrest => ?_
  exact (mirrors_readEnd hbehind hrest keyword _).bind fun _ rest hrest => .ok _ hrest

omit hbehind in
/-- A form is announced by three tokens that stand in the line. -/
theorem announcedForm?_of_isTerminator {name file third : Token}
    (h : name.kind.isTerminator ∨ file.kind.isTerminator ∨ third.kind.isTerminator) :
    announcedForm? [name, file, third] = none := by
  simp only [isTerminator_iff] at h
  rw [announcedForm?]
  rcases h with (hk | hk) | (hk | hk) | (hk | hk) <;> simp only [hk]
  all_goals split <;> simp_all [TokenKind.content?]

theorem announcedForm?_facing (line : List Token) :
    let here := cursor.facing (line ++ behind)
    announcedForm? [here.peekAt 0, here.peekAt 1, here.peekAt 2] = announcedForm? line := by
  have hstop := cursor.isTerminator_peek_facing hbehind
  rcases line with _ | ⟨name, _ | ⟨file, _ | ⟨third, rest⟩⟩⟩
  · exact announcedForm?_of_isTerminator (.inl hstop)
  · exact announcedForm?_of_isTerminator (.inr (.inl hstop))
  · exact announcedForm?_of_isTerminator (.inr (.inr hstop))
  · rfl

omit hbehind in
/-- The form that a line announces. -/
def formNext (opener : Token) (keyword : Keyword) (line : List Token) :
    Except Problem (Form × List Token) :=
  match announcedForm? line with
  | some form => .ok (form, line)
  | none => .error (opener.problem (.unresolvedForm keyword))

theorem mirrors_readForm (hline : Unended line) (opener : Token) (keyword : Keyword) :
    Mirrors cursor behind (formNext opener keyword line)
      (readForm opener keyword (cursor.facing (line ++ behind))) := by
  rw [readForm, get_bind_apply, announcedForm?_facing hbehind, formNext]
  cases announcedForm? line with
  | some form => exact .ok form hline
  | none => exact .error _ hline

omit hbehind in
theorem ofTokens_byForm {opener : Token} {keyword : Keyword} {image tmx : Shape}
    (hkind : opener.kind = .keyword keyword) (hshapes : keyword.shapes = .byForm image tmx)
    (terminator : Token) (line : List Token) :
    ((Statement.ofTokens opener line terminator).map fun s => (s, ([] : List Token))) =
      formNext opener keyword line >>= fun found =>
        (match found.1 with
          | .image => Statement.ofShape opener terminator keyword (some .image) image found.2
          | .tmx => Statement.ofShape opener terminator keyword (some .tmx) tmx found.2).map
            fun s => (s, []) := by
  simp only [Statement.ofTokens, hkind, hshapes, formNext]
  rcases announcedForm? line with _ | form
  · rfl
  · cases form <;> rfl

theorem mirrors_readBody (hline : Unended line) {opener : Token} {keyword : Keyword}
    (hkind : opener.kind = .keyword keyword) :
    Mirrors cursor behind
      ((Statement.ofTokens opener line (cursor.facing behind).peek).map fun s => (s, []))
      (readBody opener keyword (cursor.facing (line ++ behind))) := by
  cases hshapes : keyword.shapes with
  | single shape =>
    simp only [Statement.ofTokens, readBody, hkind, hshapes]
    exact mirrors_readShape hbehind hline opener keyword none shape
  | byForm image tmx =>
    simp only [ofTokens_byForm hkind hshapes, readBody, hshapes]
    refine (mirrors_readForm hbehind hline opener keyword).bind fun form rest hrest => ?_
    cases form <;> exact mirrors_readShape hbehind hrest _ _ _ _

theorem mirrors_readStatement {opener : Token} (hline : Unended (opener :: line)) :
    Mirrors cursor behind
      ((Statement.ofTokens opener line (cursor.facing behind).peek).map fun s => (s, []))
      (readStatement (cursor.facing (opener :: line ++ behind))) := by
  obtain ⟨hopener, hrest⟩ := unended_cons.mp hline
  rw [List.cons_append]
  cases hkind : opener.kind with
  | keyword keyword =>
    have hpeek : (cursor.facing (opener :: (line ++ behind))).peek.kind = .keyword keyword := hkind
    rw [readStatement_keyword hpeek, Cursor.peek_facing_cons, cursor.advance_facing_cons hopener.2]
    exact mirrors_readBody hbehind hrest hkind
  | _ =>
    simp only [Statement.ofTokens, readStatement, get_bind_apply, Cursor.peek_facing_cons, hkind]
    exact .error _ hline

end Steps

/-! ## Documents -/

namespace Document

/-- What a run gives, in front of what a document has. -/
def put (document : Document) (run : Run) : Document where
  program := run.statement?.toList ++ document.program
  problems := run.problem?.toList ++ document.problems
  comments := document.comments

variable {cursor : Cursor} {line behind : List Token}

section Loop

theorem ofCursor_congr {here : Cursor} (h : cursor.skipNewlines = here.skipNewlines) :
    ofCursor cursor = ofCursor here := by
  rw [ofCursor.eq_def cursor, ofCursor.eq_def here, h]

theorem ofCursor_of_atEnd (hend : cursor.skipNewlines.atEnd) : ofCursor cursor = ⟨[], [], []⟩ := by
  rw [ofCursor, dif_pos hend]

variable (hend : ¬ cursor.skipNewlines.atEnd)

include hend

theorem ofCursor_of_fault (hfault : cursor.skipNewlines.lineHasFault) :
    ofCursor cursor = ofCursor cursor.skipNewlines.synchronize := by
  rw [ofCursor.eq_def cursor, dif_neg hend, if_pos hfault]

variable (hfault : ¬ cursor.skipNewlines.lineHasFault) {later : Cursor}

include hfault

theorem ofCursor_of_ok {s : Statement} (hread : readStatement cursor.skipNewlines = .ok s later) :
    ofCursor cursor = (ofCursor later).declare s := by
  rw [ofCursor.eq_def cursor, dif_neg hend, if_neg hfault]
  split
  · rename_i hs
    rw [hread] at hs
    cases hs
    rfl
  · rename_i hs
    rw [hread] at hs
    cases hs

theorem ofCursor_of_error {problem : Problem}
    (hread : readStatement cursor.skipNewlines = .error problem later) :
    ofCursor cursor = (ofCursor later.synchronize).refuse problem := by
  rw [ofCursor.eq_def cursor, dif_neg hend, if_neg hfault]
  split
  · rename_i hs
    rw [hread] at hs
    cases hs
  · rename_i hs
    rw [hread] at hs
    cases hs
    rfl

end Loop

/-- The newline in front of a line is passed over. -/
theorem ofCursor_advance (hbehind : EndsLine behind) :
    ofCursor (cursor.facing behind).advance = ofCursor (cursor.facing behind) := by
  rcases isTerminator_iff.mp (cursor.isTerminator_peek_facing hbehind) with hk | hk
  · exact ofCursor_congr (Cursor.skipNewlines_of_eq _ hk).symm
  · rw [Cursor.advance, if_pos ((Cursor.atEnd_iff _).mpr hk)]

/-- A line gives what it gives alone, and then what stands behind it is read. -/
theorem ofCursor_line (hline : Unended line) (hbehind : EndsLine behind) :
    ofCursor (cursor.facing (line ++ behind)) =
      (ofCursor (cursor.facing behind)).put ⟨line, (cursor.facing behind).peek⟩ := by
  cases line with
  | nil => rfl
  | cons opener line =>
    have hopener := (unended_cons.mp hline).1
    have hskip : (cursor.facing (opener :: line ++ behind)).skipNewlines = _ :=
      Cursor.skipNewlines_of_ne _ hopener.1
    have hend : ¬ (cursor.facing (opener :: line ++ behind)).skipNewlines.atEnd := by
      rw [hskip, Cursor.atEnd_iff]
      exact hopener.2
    by_cases hfault : ∃ token ∈ opener :: line, token.kind = .unreadable
    · obtain ⟨token, hm, hk⟩ := hfault
      rw [ofCursor_of_fault hend, hskip, cursor.synchronize_facing hline hbehind,
        ofCursor_advance hbehind, put, Run.statement?, Run.problem?,
        Run.outcome?_eq_none_of_mem hm hk]
      · rfl
      · rw [hskip, cursor.lineHasFault_facing hline hbehind]
        exact List.any_eq_true.mpr ⟨token, hm, beq_iff_eq.mpr hk⟩
    · have hread : ∀ token ∈ opener :: line, token.kind ≠ .unreadable :=
        fun token hm hk => hfault ⟨token, hm, hk⟩
      have hclear : ¬ (cursor.facing (opener :: line ++ behind)).skipNewlines.lineHasFault := by
        rw [hskip, cursor.lineHasFault_facing hline hbehind]
        simpa using hread
      have hmirrors : Mirrors cursor behind _ (readStatement (cursor.facing _).skipNewlines) :=
        hskip.symm ▸ mirrors_readStatement hbehind hline
      rw [put, Run.statement?, Run.problem?, Run.outcome?_cons hread]
      generalize hresult : readStatement _ = result at hmirrors
      cases hgiven : Statement.ofTokens opener line (cursor.facing behind).peek with
      | ok s =>
        rw [hgiven] at hmirrors
        cases hmirrors
        rw [ofCursor_of_ok hend hclear hresult]
        rfl
      | error problem =>
        rw [hgiven] at hmirrors
        cases hmirrors with
        | error _ hrest =>
          rw [ofCursor_of_error hend hclear hresult, cursor.synchronize_facing hrest hbehind,
            ofCursor_advance hbehind]
          rfl

theorem put_runs (run : Run) (more : List Run) :
    put ⟨more.filterMap Run.statement?, more.filterMap Run.problem?, []⟩ run =
      ⟨(run :: more).filterMap Run.statement?, (run :: more).filterMap Run.problem?, []⟩ := by
  rw [put, List.filterMap_cons, List.filterMap_cons]
  cases run.statement? <;> cases run.problem? <;> rfl

/-- Lines in front of the end of the input give what they give alone. -/
theorem ofCursor_lines (hdone : (cursor.facing behind).peek.kind = .done) {live : List Token}
    (hlive : ∀ token ∈ live, token.kind ≠ .done) (hbehind : EndsLine behind) :
    ofCursor (cursor.facing (live ++ behind)) =
      ⟨(cutRuns (cursor.facing behind).peek live).filterMap Run.statement?,
        (cutRuns (cursor.facing behind).peek live).filterMap Run.problem?, []⟩ := by
  have hstop : ofCursor (cursor.facing behind) = ⟨[], [], []⟩ := by
    refine ofCursor_of_atEnd ?_
    rw [Cursor.skipNewlines_of_ne _ (by rw [hdone]; nofun), Cursor.atEnd_iff]
    exact hdone
  fun_induction cutRuns (cursor.facing behind).peek live with
  | case1 live line hdrop =>
    have hcut : line ++ [] = live := hdrop ▸ List.takeWhile_append_dropWhile
    have hline : Unended line := fun token hm =>
      ⟨by simpa using List.mem_takeWhile_imp hm, hlive token (List.takeWhile_subset _ hm)⟩
    rw [← hcut, List.append_nil, ofCursor_line hline hbehind, hstop]
    exact put_runs _ []
  | case2 live line newline rest hdrop ih =>
    have hcut : line ++ newline :: rest = live := hdrop ▸ List.takeWhile_append_dropWhile
    have hline : Unended line := fun token hm =>
      ⟨by simpa using List.mem_takeWhile_imp hm, hlive token (List.takeWhile_subset _ hm)⟩
    have hnewline : newline.kind = .newline := by
      have hhead := List.head?_dropWhile_not (fun token : Token => token.kind != .newline) live
      rw [hdrop] at hhead
      simpa using hhead
    have hends : EndsLine (newline :: rest ++ behind) := by
      simp [EndsLine, isTerminator_iff, hnewline]
    have hmore := ih fun token hm => hlive token (hcut ▸ by simp [hm])
    rw [← hcut, List.append_assoc, ofCursor_line hline hends, ← ofCursor_advance hends,
      List.cons_append, cursor.advance_facing_cons (by rw [hnewline]; nofun), hmore]
    exact put_runs _ _

/-- Reading with a cursor gives what the runs give. -/
theorem ofTokens_eq_runs (tokens : List Token) :
    ofTokens tokens =
      ⟨(runs tokens).filterMap Run.statement?, (runs tokens).filterMap Run.problem?, []⟩ := by
  let behind := tokens.dropWhile fun token => token.kind != .done
  have hfind : tokens.find? (fun token => token.kind == .done) = behind.head? :=
    tokens.find?_eq_head?_dropWhile_not fun token => token.kind == .done
  have hpeek : (tokens.find? fun token => token.kind == .done).getD (impliedEnd tokens) =
      ((Cursor.start tokens).facing behind).peek := by
    rw [hfind, List.head?_eq_getElem?]
    rfl
  have hends : ∀ token ∈ behind.head?, token.kind = .done := fun token hm => by
    simpa using List.find?_some (hfind.trans hm)
  have hdone : ((Cursor.start tokens).facing behind).peek.kind = .done := by
    rw [← hpeek, hfind]
    cases hhead : behind.head? with
    | none => exact kind_impliedEnd tokens
    | some done => exact hends done hhead
  have hlive : ∀ token ∈ tokens.takeWhile fun token => token.kind != .done, token.kind ≠ .done :=
    fun token hm => by simpa using List.mem_takeWhile_imp hm
  have hlines := ofCursor_lines hdone hlive fun token hm =>
    isTerminator_iff.mpr (.inr (hends token hm))
  rw [List.takeWhile_append_dropWhile] at hlines
  rw [runs, hpeek]
  exact hlines

end Document

end ResourceDecl
