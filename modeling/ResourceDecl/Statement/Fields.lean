import ResourceDecl.Problem
import ResourceDecl.Statement.Basic
import ResourceDecl.Text.Decimal

/-!
# Fields from tokens

A field looks at the next token, and takes it if its class fits. What it takes is gone for the
fields behind it.

* `FieldClass.value?`: the value that a field makes of one token.
* `takeField`: the field that stands next, if it does.
* `missingCause`, `trailingCause`: what is wrong with a token that no field takes.
-/

namespace ResourceDecl

open Text

/-! ## Values -/

/-- The value of an integer. -/
def intOf (numeral : String) : Except Cause Int :=
  match readInt64 numeral with
  | some value => .ok value
  | none => .error (.overflow numeral)

/-- The value that a field makes of a token, `none` if it does not take the token. -/
def FieldClass.value? : FieldClass → TokenKind → Except Cause (Option FieldValue)
  | ident, .ident name | identOrStr, .ident name => .ok (some (.ident name))
  | str, .string content | identOrStr, .string content => .ok (some (.str content))
  | str, .sortKey key | identOrStr, .sortKey key => .ok (some (.str (sortKeyMark ++ key)))
  | sortKey, .sortKey key => .ok (some (.sortKey key))
  | int, .int numeral | time, .int numeral => do
    return some (.int (← intOf numeral))
  | size, .int numeral => do
    return some (.size ⟨← intOf numeral, none⟩)
  | size, .size numeral unit => do
    return some (.size ⟨← intOf numeral, some unit⟩)
  | time, .intArray numerals => do
    return some (.intArray (← numerals.mapM intOf))
  | time, .intRows rows => do
    return some (.intRows (← rows.mapM fun numerals => numerals.mapM intOf))
  | choice vocabulary, kind =>
    .ok ((kind.word?.bind vocabulary.lookup).map (.choice vocabulary))
  | _, _ => .ok none

/-! ## Fields -/

/-- The token is a string of either kind. -/
def Token.isString (token : Token) : Bool :=
  token.kind.content?.isSome

/-- Take all strings that stand next. -/
def takeStrings (field : FieldName) (tokens : List Token) : Option (Field × List Token) :=
  match tokens.takeWhile Token.isString with
  | [] => none
  | first :: more =>
    let contents := (first :: more).filterMap fun token => token.kind.content?
    let span := more.foldl (fun span token => span.join token.span) first.span
    some (⟨field, .strs contents, span⟩, tokens.dropWhile Token.isString)

/-- Take the field that stands next, if it does. -/
def takeField (spec : FieldSpec) (tokens : List Token) :
    Except Problem (Option (Field × List Token)) :=
  if spec.accepts = .strs then .ok (takeStrings spec.name tokens)
  else
    match tokens with
    | [] => .ok none
    | token :: rest =>
      match spec.accepts.value? token.kind with
      | .ok (some value) => .ok (some (⟨spec.name, value, token.span⟩, rest))
      | .ok none => .ok none
      | .error cause => .error (token.problem cause)

theorem length_takeField_le {spec : FieldSpec} {tokens rest : List Token} {field : Field}
    (h : takeField spec tokens = .ok (some (field, rest))) : rest.length ≤ tokens.length := by
  unfold takeField at h
  split at h
  · rw [takeStrings] at h
    split at h
    · cases h
    · cases h
      exact length_dropWhile_le Token.isString tokens
  · split at h
    · cases h
    · split at h
      · cases h
        exact Nat.le_succ _
      · cases h
      · cases h

/-- What is wrong with a token where a required field should stand. -/
def missingCause (keyword : Keyword) (spec : FieldSpec) (found : TokenKind) : Cause :=
  match spec.accepts.vocabulary?, found.word? with
  | some vocabulary, some word => .foreignWord keyword spec.name vocabulary word
  | _, _ => .missingField keyword spec found

/-- What is wrong with a token that is left over. -/
def trailingCause (keyword : Keyword) (missed : List FieldSpec) (found : TokenKind) : Cause :=
  match missed with
  | [spec] =>
    match spec.accepts.vocabulary?, found.word? with
    | some vocabulary, some word => .foreignWord keyword spec.name vocabulary word
    | _, _ => .trailing keyword found missed
  | _ => .trailing keyword found missed

end ResourceDecl
