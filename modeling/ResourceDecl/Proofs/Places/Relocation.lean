import Mathlib.Order.MinMax
import ResourceDecl.Document
import ResourceDecl.Proofs.Documents.Runs

/-!
# Relocation of tokens

What is read from tokens does not depend on where they stand. A `Relocation` moves offsets, lines
and columns, and a declaration that is read from moved tokens is the moved declaration; the same
holds of a problem.

* `Relocation.down`: everything stands some bytes and lines further down.
* `takeField_moved`, `takeRequired_moved`, `takeChains_moved`: the readers of fields.
* `Statement.ofTokens_moved`: the reader of declarations.
* `Run.statement?_moved`, `Run.problem?_moved`: what a run gives.
-/

namespace ResourceDecl

open Text

/-! ## Moving places -/

/-- A change of places. Offsets keep their order, so that the span over some spans moves with
them. -/
structure Relocation where
  offset : Nat → Nat
  line : Nat → Nat
  column : Nat → Nat
  monotone : Monotone offset

/-- So many bytes and lines further down, in the same column. -/
def Relocation.down (bytes lines : Nat) : Relocation where
  offset n := n + bytes
  line n := n + lines
  column n := n
  monotone _ _ h := Nat.add_le_add_right h bytes

section Moved

variable (r : Relocation)

def Text.Span.moved (span : Span) : Span :=
  ⟨r.offset span.start, r.offset span.stop⟩

def Token.moved (token : Token) : Token :=
  { token with
    span := token.span.moved r, line := r.line token.line, column := r.column token.column }

def Comment.moved (comment : Comment) : Comment :=
  { comment with span := comment.span.moved r, line := r.line comment.line }

def Problem.moved (problem : Problem) : Problem :=
  { problem with
    span := problem.span.moved r, line := r.line problem.line, column := r.column problem.column }

def Field.moved (field : Field) : Field :=
  { field with span := field.span.moved r }

def Statement.moved (s : Statement) : Statement :=
  { s with
    fields := s.fields.map (Field.moved r), line := r.line s.line, span := s.span.moved r }

def Run.moved (run : Run) : Run :=
  ⟨run.tokens.map (Token.moved r), run.terminator.moved r⟩

@[simp] theorem Token.kind_moved (token : Token) : (token.moved r).kind = token.kind := rfl

@[simp] theorem Token.span_moved (token : Token) : (token.moved r).span = token.span.moved r := rfl

theorem Text.Span.join_moved (a b : Span) :
    (a.join b).moved r = (a.moved r).join (b.moved r) := by
  simp only [join, moved, r.monotone.map_min, r.monotone.map_max]

end Moved

/-! ## Results -/

namespace Relocation

variable {α β γ δ : Type} (r : Relocation)

/-- The result with its problem moved, or with its value changed. -/
def result (f : α → β) : Except Problem α → Except Problem β
  | .ok value => .ok (f value)
  | .error problem => .error (problem.moved r)

@[simp] theorem result_pure (f : α → β) (value : α) :
    r.result f (pure value) = pure (f value) := rfl

/-- Steps that move one behind the other. -/
theorem result_bind {f : α → β} {g : γ → δ} {k : α → Except Problem γ} {l : β → Except Problem δ}
    (h : ∀ value, l (f value) = r.result g (k value)) (x : Except Problem α) :
    (r.result f x >>= l) = r.result g (x >>= k) := by
  cases x with
  | ok value => exact h value
  | error problem => rfl

end Relocation

/-! ## Fields -/

section Fields

variable (r : Relocation)

/-- A field and the tokens behind it. -/
def movedField : Field × List Token → Field × List Token :=
  Prod.map (Field.moved r) (List.map (Token.moved r))

/-- Fields and the tokens behind them. -/
def movedFields : List Field × List Token → List Field × List Token :=
  Prod.map (List.map (Field.moved r)) (List.map (Token.moved r))

def Taken.moved (taken : Taken) : Taken :=
  { taken with
    fields := taken.fields.map (Field.moved r), rest := taken.rest.map (Token.moved r) }

theorem takeStrings_moved (field : FieldName) (tokens : List Token) :
    takeStrings field (tokens.map (Token.moved r)) =
      (takeStrings field tokens).map (movedField r) := by
  have hspan (more : List Token) (span : Span) :
      (more.map (Token.moved r)).foldl (fun span token => span.join token.span) (span.moved r) =
        (more.foldl (fun span token => span.join token.span) span).moved r := by
    induction more generalizing span with
    | nil => rfl
    | cons token more ih =>
      rw [List.map_cons, List.foldl_cons, List.foldl_cons, ← ih, Span.join_moved]
      rfl
  have hstring : Token.isString ∘ Token.moved r = Token.isString := rfl
  rw [takeStrings, takeStrings, List.takeWhile_map, List.dropWhile_map, hstring]
  cases tokens.takeWhile Token.isString with
  | nil => rfl
  | cons first more =>
    have hcontents : (List.map (Token.moved r) (first :: more)).filterMap
        (fun token => token.kind.content?) =
        (first :: more).filterMap fun token => token.kind.content? := by
      rw [List.filterMap_map]
      rfl
    simp only [List.map_cons] at hcontents ⊢
    rw [hcontents, Token.span_moved, hspan]
    rfl

theorem takeField_moved (spec : FieldSpec) (tokens : List Token) :
    takeField spec (tokens.map (Token.moved r)) =
      r.result (Option.map (movedField r)) (takeField spec tokens) := by
  unfold takeField
  split
  · rw [takeStrings_moved]
    rfl
  · cases tokens with
    | nil => rfl
    | cons token rest =>
      simp only [List.map_cons, Token.kind_moved]
      cases spec.accepts.value? token.kind with
      | error cause => rfl
      | ok value => cases value <;> rfl

theorem takeRequired_moved (k : Keyword) (terminator : Token) (specs : List FieldSpec)
    (tokens : List Token) :
    takeRequired k (terminator.moved r) specs (tokens.map (Token.moved r)) =
      r.result (movedFields r) (takeRequired k terminator specs tokens) := by
  induction specs generalizing tokens with
  | nil => rfl
  | cons spec specs ih =>
    rw [takeRequired, takeRequired, takeField_moved]
    refine r.result_bind (fun found => ?_) _
    cases found with
    | none => cases tokens <;> rfl
    | some found =>
      obtain ⟨field, rest⟩ := found
      simp only [Option.map_some, movedField, Prod.map_apply, ih]
      apply r.result_bind
      intro more
      rfl

theorem takeChain_moved (chain : List FieldSpec) (tokens : List Token) :
    takeChain chain (tokens.map (Token.moved r)) =
      r.result (Taken.moved r) (takeChain chain tokens) := by
  induction chain generalizing tokens with
  | nil => rfl
  | cons spec chain ih =>
    rw [takeChain, takeChain, takeField_moved]
    refine r.result_bind (fun found => ?_) _
    cases found with
    | none => rfl
    | some found =>
      obtain ⟨field, rest⟩ := found
      simp only [Option.map_some, movedField, Prod.map_apply, ih]
      apply r.result_bind
      intro more
      rfl

theorem takeChains_moved (chains : List (List FieldSpec)) (tokens : List Token) :
    takeChains chains (tokens.map (Token.moved r)) =
      r.result (Taken.moved r) (takeChains chains tokens) := by
  induction chains generalizing tokens with
  | nil => rfl
  | cons chain chains ih =>
    rw [takeChains, takeChains, takeChain_moved]
    refine r.result_bind (fun taken => ?_) _
    have hrest : (taken.moved r).rest = taken.rest.map (Token.moved r) := rfl
    rw [hrest, ih]
    refine r.result_bind (fun more => ?_) _
    simp only [Taken.moved, Relocation.result_pure, List.map_append, List.isEmpty_map]

end Fields

/-! ## Declarations -/

section Declarations

variable (r : Relocation)

theorem announcedForm?_moved (tokens : List Token) :
    announcedForm? (tokens.map (Token.moved r)) = announcedForm? tokens := by
  match tokens with
  | [] | [_] | [_, _] => rfl
  | _ :: _ :: _ :: _ => rfl

namespace Statement

theorem ofShape_moved (opener terminator : Token) (k : Keyword) (form : Option Form)
    (shape : Shape) (tokens : List Token) :
    ofShape (opener.moved r) (terminator.moved r) k form shape (tokens.map (Token.moved r)) =
      r.result (moved r) (ofShape opener terminator k form shape tokens) := by
  rw [ofShape, ofShape, takeRequired_moved]
  refine r.result_bind (fun required => ?_) _
  obtain ⟨required, rest⟩ := required
  simp only [movedFields, Prod.map_apply, takeChains_moved]
  refine r.result_bind (fun taken => ?_) _
  obtain ⟨fields, missed, rest⟩ := taken
  cases rest with
  | cons token rest => rfl
  | nil =>
    have hfields : required.map (Field.moved r) ++ fields.map (Field.moved r) =
        (required ++ fields).map (Field.moved r) := List.map_append.symm
    simp only [Taken.moved, List.map_nil, hfields, List.getLast?_map]
    cases (required ++ fields).getLast? <;> rfl

/-- A declaration moves with its tokens, and so does what is wrong with them. -/
theorem ofTokens_moved (opener : Token) (tokens : List Token) (terminator : Token) :
    ofTokens (opener.moved r) (tokens.map (Token.moved r)) (terminator.moved r) =
      r.result (moved r) (ofTokens opener tokens terminator) := by
  rw [ofTokens, ofTokens, Token.kind_moved, announcedForm?_moved]
  split
  · split
    · exact ofShape_moved r _ _ _ _ _ _
    · split
      · exact ofShape_moved r _ _ _ _ _ _
      · exact ofShape_moved r _ _ _ _ _ _
      · rfl
  · rfl
  · rfl

end Statement

namespace Run

theorem outcome?_moved (run : Run) :
    (run.moved r).outcome? = run.outcome?.map (r.result (Statement.moved r)) := by
  obtain ⟨tokens, terminator⟩ := run
  cases tokens with
  | nil => rfl
  | cons opener tokens =>
    have hany : ((opener :: tokens).map (Token.moved r)).any (fun token =>
        token.kind == .unreadable) = (opener :: tokens).any fun token =>
          token.kind == .unreadable := by
      rw [List.any_map]
      rfl
    rw [List.map_cons] at hany
    simp only [moved, outcome?, List.map_cons, hany, Statement.ofTokens_moved]
    split <;> rfl

theorem statement?_moved (run : Run) :
    (run.moved r).statement? = run.statement?.map (Statement.moved r) := by
  rw [statement?, statement?, outcome?_moved]
  rcases run.outcome? with _ | _ | _ <;> rfl

theorem problem?_moved (run : Run) :
    (run.moved r).problem? = run.problem?.map (Problem.moved r) := by
  rw [problem?, problem?, outcome?_moved]
  rcases run.outcome? with _ | _ | _ <;> rfl

end Run

end Declarations

end ResourceDecl
