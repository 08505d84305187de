import ResourceDecl.Statement.Cursor
import ResourceDecl.Statement.Fields

/-!
# Reading declarations

A declaration is the keyword that opens its line, its required fields and its optional fields, and
nothing behind them. Fields are tried in the order of their shape, a chain of optional fields until
the first one that finds nothing. The form of a map is decided before any field is read, from the
three tokens behind the keyword:

| name       | file           | third      | form  |
|------------|----------------|------------|-------|
| identifier | string         | identifier | image |
| identifier | string, `.tmx` | string     | TMX   |
| identifier | other string   | string     | image |

`readStatement` reads a declaration; `readStatement_progress` says that it goes on or fails where it
stands, so that reading all declarations of a list of tokens comes to an end.
-/

namespace ResourceDecl

/-! ## Forms of maps -/

/-- The path names a TMX map: its part behind the last dot is `tmx`, in any case. -/
def isTmxPath (path : String) : Bool :=
  let backwards := path.toList.reverse
  let extension := backwards.takeWhile (· != '.')
  extension.length < backwards.length &&
    extension.reverse.map Char.toLower == ['t', 'm', 'x']

/-- The form that the tokens behind the keyword announce. -/
def announcedForm? : List Token → Option Form
  | name :: file :: third :: _ =>
    match name.kind, file.kind.content?, third.kind with
    | .ident _, some _, .ident _ => some .image
    | .ident _, some path, kind =>
      if kind.content?.isSome then some (if isTmxPath path then .tmx else .image) else none
    | _, _, _ => none
  | _ => none

/-- Decide the form of a map; `opener` is the token of its keyword. -/
def readForm (opener : Token) (keyword : Keyword) : TokenReader Form := do
  let cursor ← get
  match announcedForm? [cursor.peekAt 0, cursor.peekAt 1, cursor.peekAt 2] with
  | some form => return form
  | none => throw (opener.problem (.unresolvedForm keyword))

/-! ## Fields -/

/-- Read the field that stands next, if it does. -/
def readField (spec : FieldSpec) : TokenReader (Option Field) := do
  let cursor ← get
  match takeField spec cursor.ahead with
  | .error problem => throw problem
  | .ok none => return none
  | .ok (some (field, rest)) =>
    set { cursor with ahead := rest }
    return some field

theorem readField_apply (spec : FieldSpec) (cursor : Cursor) :
    readField spec cursor =
      match takeField spec cursor.ahead with
      | .error problem => .error problem cursor
      | .ok none => .ok none cursor
      | .ok (some (field, rest)) => .ok (some field) { cursor with ahead := rest } := by
  rw [readField, TokenReader.get_bind_apply]
  rcases takeField spec cursor.ahead with problem | _ | ⟨field, rest⟩ <;> rfl

/-- Read a field that must stand next. -/
def readRequired (keyword : Keyword) (spec : FieldSpec) : TokenReader Field := do
  match ← readField spec with
  | some field => return field
  | none =>
    let found := (← get).peek
    throw (found.problem (missingCause keyword spec found.kind))

/-- Optional fields that were read, and the positions that found nothing since the last of them. -/
structure Optionals where
  fields : List Field := []
  missed : List FieldSpec := []
deriving DecidableEq, Inhabited

/-- Read the fields of a chain as far as they stand there. -/
def readChain (read : Optionals) : List FieldSpec → TokenReader Optionals
  | [] => return read
  | spec :: specs => do
    match ← readField spec with
    | some field => readChain ⟨read.fields ++ [field], []⟩ specs
    | none => return { read with missed := read.missed ++ [spec] }

/-- The line must end here. -/
def readEnd (keyword : Keyword) (missed : List FieldSpec) : TokenReader Unit := do
  let found := (← get).peek
  if found.kind.isTerminator then return ()
  else throw (found.problem (trailingCause keyword missed found.kind))

/-! ## Declarations -/

/-- Read a declaration of a known shape behind its keyword; `opener` is the token of the keyword. -/
def readShape (opener : Token) (keyword : Keyword) (form : Option Form) (shape : Shape) :
    TokenReader Statement := do
  let required ← shape.required.mapM (readRequired keyword)
  let optional ← shape.chains.foldlM readChain {}
  readEnd keyword optional.missed
  let fields := required ++ optional.fields
  let stop := (fields.getLast?.map fun field => field.span.stop).getD opener.span.stop
  return ⟨keyword, form, fields, opener.line, ⟨opener.span.start, stop⟩⟩

/-- Read a declaration behind its keyword. -/
def readBody (opener : Token) (keyword : Keyword) : TokenReader Statement :=
  match keyword.shapes with
  | .single shape => readShape opener keyword none shape
  | .byForm image tmx => do
    match ← readForm opener keyword with
    | .image => readShape opener keyword (some .image) image
    | .tmx => readShape opener keyword (some .tmx) tmx

/-- Read a declaration. -/
def readStatement : TokenReader Statement := do
  let cursor ← get
  let opener := cursor.peek
  match opener.kind with
  | .keyword keyword =>
    set cursor.advance
    readBody opener keyword
  | .ident word => throw (opener.problem (.unknownKeyword word))
  | found => throw (opener.problem (.keywordExpected found))

/-! ## Progress -/

open TokenReader

theorem readForm_goesOn (opener : Token) (keyword : Keyword) :
    GoesOn (readForm opener keyword) := by
  refine .look fun cursor => ?_
  split
  · exact .pure _
  · exact .throw _

theorem readField_goesOn (spec : FieldSpec) : GoesOn (readField spec) := by
  intro cursor
  rw [readField_apply]
  rcases htaken : takeField spec cursor.ahead with problem | _ | ⟨field, rest⟩
  · exact Nat.le_refl _
  · exact Nat.le_refl _
  · exact length_takeField_le htaken

theorem readRequired_goesOn (keyword : Keyword) (spec : FieldSpec) :
    GoesOn (readRequired keyword spec) := by
  refine (readField_goesOn spec).bind fun field => ?_
  cases field with
  | some field => exact .pure _
  | none => exact .look fun cursor => .throw _

theorem readChain_goesOn (read : Optionals) (specs : List FieldSpec) :
    GoesOn (readChain read specs) := by
  induction specs generalizing read with
  | nil => exact .pure _
  | cons spec specs ih =>
    refine (readField_goesOn spec).bind fun field => ?_
    cases field with
    | some field => exact ih _
    | none => exact .pure _

theorem readEnd_goesOn (keyword : Keyword) (missed : List FieldSpec) :
    GoesOn (readEnd keyword missed) := by
  refine .look fun cursor => ?_
  show GoesOn (if cursor.peek.kind.isTerminator then _ else _)
  split
  · exact .pure _
  · exact .throw _

theorem readShape_goesOn (opener : Token) (keyword : Keyword) (form : Option Form) (shape : Shape) :
    GoesOn (readShape opener keyword form shape) := by
  refine (GoesOn.mapM (readRequired_goesOn keyword) _).bind fun required => ?_
  refine (GoesOn.foldlM readChain_goesOn _ _).bind fun optional => ?_
  exact (readEnd_goesOn keyword _).bind fun _ => .pure _

theorem readBody_goesOn (opener : Token) (keyword : Keyword) :
    GoesOn (readBody opener keyword) := by
  rw [readBody]
  split
  · exact readShape_goesOn _ _ _ _
  · refine (readForm_goesOn opener keyword).bind fun form => ?_
    cases form <;> exact readShape_goesOn _ _ _ _

theorem readStatement_keyword {cursor : Cursor} {keyword : Keyword}
    (h : cursor.peek.kind = .keyword keyword) :
    readStatement cursor = readBody cursor.peek keyword cursor.advance := by
  rw [readStatement, get_bind_apply]
  simp only [h]
  rfl

/-- A line that no keyword opens is refused at its first token. -/
theorem readStatement_other {cursor : Cursor}
    (h : ∀ keyword, cursor.peek.kind ≠ .keyword keyword) :
    ∃ problem, readStatement cursor = .error problem cursor := by
  rw [readStatement, get_bind_apply]
  cases hkind : cursor.peek.kind with
  | keyword keyword => exact absurd hkind (h keyword)
  | _ => exact ⟨_, rfl⟩

/-- Reading a declaration takes its keyword, or fails where it stands. -/
theorem readStatement_progress {cursor : Cursor} (h : cursor.peek.kind ≠ .done) :
    (∃ problem, readStatement cursor = .error problem cursor) ∨
      (stop (readStatement cursor)).ahead.length < cursor.ahead.length := by
  by_cases hopener : ∃ keyword, cursor.peek.kind = .keyword keyword
  · obtain ⟨keyword, hkeyword⟩ := hopener
    right
    rw [readStatement_keyword hkeyword]
    exact Nat.lt_of_le_of_lt (readBody_goesOn _ _ _) (Cursor.length_advance_lt h)
  · exact .inl (readStatement_other fun keyword hk => hopener ⟨keyword, hk⟩)

section

variable {cursor later : Cursor} (hkind : cursor.peek.kind ≠ .done)

include hkind

theorem length_lt_of_readStatement_ok {s : Statement} (h : readStatement cursor = .ok s later) :
    later.ahead.length < cursor.ahead.length := by
  have hprogress := readStatement_progress hkind
  rw [h] at hprogress
  rcases hprogress with ⟨problem, herror⟩ | hlt
  · cases herror
  · exact hlt

/-- Behind a line that is refused the cursor has gone on. -/
theorem length_lt_of_readStatement_error {problem : Problem}
    (h : readStatement cursor = .error problem later) :
    later.synchronize.ahead.length < cursor.ahead.length := by
  have hprogress := readStatement_progress hkind
  rw [h] at hprogress
  rcases hprogress with ⟨_, hsame⟩ | hlt
  · cases hsame
    exact Cursor.length_synchronize_lt hkind
  · exact Nat.lt_of_le_of_lt later.length_synchronize_le hlt

end

end ResourceDecl
