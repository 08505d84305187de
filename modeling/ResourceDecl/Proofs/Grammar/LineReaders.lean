import ResourceDecl.Statement.Reader

/-!
# Reading one line

The readers of declarations, said of the tokens of one line and of the token that ends it. No cursor
is needed then: what is ahead is what the line has left.

* `takeRequired`, `takeChain`, `takeChains`: the fields of the parts of a shape.
* `Statement.ofTokens`: the declaration of a line.
-/

namespace ResourceDecl

/-! ## Fields -/

/-- Take all required fields; `terminator` is the token that ends the line. -/
def takeRequired (keyword : Keyword) (terminator : Token) :
    List FieldSpec → List Token → Except Problem (List Field × List Token)
  | [], tokens => .ok ([], tokens)
  | spec :: specs, tokens => do
    match ← takeField spec tokens with
    | none =>
      let token := tokens.headD terminator
      .error (token.problem (missingCause keyword spec token.kind))
    | some (field, rest) =>
      let (fields, rest) ← takeRequired keyword terminator specs rest
      return (field :: fields, rest)

/-- Fields that were taken, positions that found nothing since the last of them, tokens that are
left. -/
structure Taken where
  fields : List Field
  missed : List FieldSpec
  rest : List Token
deriving DecidableEq, Inhabited

/-- Take the fields of a chain as far as they stand there. -/
def takeChain : List FieldSpec → List Token → Except Problem Taken
  | [], tokens => .ok ⟨[], [], tokens⟩
  | spec :: specs, tokens => do
    match ← takeField spec tokens with
    | none => return ⟨[], [spec], tokens⟩
    | some (field, rest) =>
      let taken ← takeChain specs rest
      return { taken with fields := field :: taken.fields }

/-- Take the fields of all chains, one chain behind the other. -/
def takeChains : List (List FieldSpec) → List Token → Except Problem Taken
  | [], tokens => .ok ⟨[], [], tokens⟩
  | chain :: chains, tokens => do
    let taken ← takeChain chain tokens
    let more ← takeChains chains taken.rest
    let missed := if more.fields.isEmpty then taken.missed ++ more.missed else more.missed
    return ⟨taken.fields ++ more.fields, missed, more.rest⟩

/-! ## Declarations -/

namespace Statement

/-- The declaration of a known shape; `opener` is the token of the keyword. -/
def ofShape (opener terminator : Token) (keyword : Keyword) (form : Option Form) (shape : Shape)
    (tokens : List Token) : Except Problem Statement := do
  let (required, rest) ← takeRequired keyword terminator shape.required tokens
  let taken ← takeChains shape.chains rest
  match taken.rest with
  | token :: _ => .error (token.problem (trailingCause keyword taken.missed token.kind))
  | [] =>
    let fields := required ++ taken.fields
    let stop := (fields.getLast?.map fun field => field.span.stop).getD opener.span.stop
    return ⟨keyword, form, fields, opener.line, ⟨opener.span.start, stop⟩⟩

/-- The declaration of a line: its first token, the tokens behind it, the token that ends it. -/
def ofTokens (opener : Token) (tokens : List Token) (terminator : Token) :
    Except Problem Statement :=
  match opener.kind with
  | .keyword keyword =>
    match keyword.shapes with
    | .single shape => ofShape opener terminator keyword none shape tokens
    | .byForm image tmx =>
      match announcedForm? tokens with
      | some .image => ofShape opener terminator keyword (some .image) image tokens
      | some .tmx => ofShape opener terminator keyword (some .tmx) tmx tokens
      | none => .error (opener.problem (.unresolvedForm keyword))
  | .ident word => .error (opener.problem (.unknownKeyword word))
  | found => .error (opener.problem (.keywordExpected found))

end Statement

end ResourceDecl
