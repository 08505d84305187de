import ResourceDecl.Problem

/-!
# A cursor over tokens

Tokens are read from front to back, and no token is given back. A `Cursor` holds what is ahead. The
end of the input stands behind the last token, whether the tokens hold one or not, and no cursor
gets past it; what follows it is never reached.

* `Cursor.peekAt`, `Cursor.advance`: the tokens ahead, and one step behind the next of them.
* `Cursor.skipNewlines`, `Cursor.synchronize`: steps up to the next line.
* `TokenReader`: reading that may fail, with the cursor where it failed; `TokenReader.GoesOn` if it
  never goes back.
-/

namespace ResourceDecl

/-- The token that ends a list of tokens when no token in it does. -/
def impliedEnd (tokens : List Token) : Token :=
  match tokens.getLast? with
  | some last => ⟨.done, ⟨last.span.stop, last.span.stop⟩, last.line, last.column⟩
  | none => ⟨.done, ⟨0, 0⟩, 1, 1⟩

theorem kind_impliedEnd (tokens : List Token) : (impliedEnd tokens).kind = .done := by
  rw [impliedEnd]
  split <;> rfl

/-- The tokens ahead, and the end that is seen behind them. -/
structure Cursor where
  ahead : List Token
  final : Token
  kind_final : final.kind = .done
deriving DecidableEq

namespace Cursor

/-- The cursor in front of all tokens. -/
def start (tokens : List Token) : Cursor :=
  ⟨tokens, impliedEnd tokens, kind_impliedEnd tokens⟩

/-- The token at a distance. -/
def peekAt (cursor : Cursor) (distance : Nat) : Token :=
  cursor.ahead[distance]?.getD cursor.final

/-- The next token. -/
def peek (cursor : Cursor) : Token :=
  cursor.peekAt 0

/-- The next token is the end of the input. -/
def atEnd (cursor : Cursor) : Bool :=
  cursor.peek.kind == .done

/-- Go on behind the next token, unless it is the end of the input. -/
def advance (cursor : Cursor) : Cursor :=
  if cursor.atEnd then cursor else { cursor with ahead := cursor.ahead.tail }

theorem length_advance_le (cursor : Cursor) :
    cursor.advance.ahead.length ≤ cursor.ahead.length := by
  rw [advance]
  split
  · exact Nat.le_refl _
  · simp

theorem length_advance_lt {cursor : Cursor} (h : cursor.peek.kind ≠ .done) :
    cursor.advance.ahead.length < cursor.ahead.length := by
  have hend : cursor.atEnd = false := beq_eq_false_iff_ne.mpr h
  rw [advance, hend]
  obtain ⟨_ | ⟨token, ahead⟩, final, hfinal⟩ := cursor
  · exact absurd hfinal h
  · simp

/-- Go on to the next token that is no newline. -/
def skipNewlines (cursor : Cursor) : Cursor :=
  if _h : cursor.peek.kind = .newline then cursor.advance.skipNewlines else cursor
termination_by cursor.ahead.length
decreasing_by exact length_advance_lt (by rw [_h]; nofun)

theorem length_skipNewlines_le (cursor : Cursor) :
    cursor.skipNewlines.ahead.length ≤ cursor.ahead.length := by
  fun_induction skipNewlines cursor with
  | case1 cursor h ih => exact Nat.le_trans ih cursor.length_advance_le
  | case2 => exact Nat.le_refl _

/-- A token that could not be read stands in the rest of the line. -/
def lineHasFault (cursor : Cursor) : Bool :=
  (cursor.ahead.takeWhile fun token => !token.kind.isTerminator).any fun token =>
    token.kind == .unreadable

/-- Go on to the token that ends the line. -/
def skipLine (cursor : Cursor) : Cursor :=
  if _h : cursor.peek.kind.isTerminator then cursor else cursor.advance.skipLine
termination_by cursor.ahead.length
decreasing_by exact length_advance_lt fun hdone => _h (by rw [hdone]; rfl)

theorem length_skipLine_le (cursor : Cursor) :
    cursor.skipLine.ahead.length ≤ cursor.ahead.length := by
  fun_induction skipLine cursor with
  | case1 => exact Nat.le_refl _
  | case2 cursor h ih => exact Nat.le_trans ih cursor.length_advance_le

/-- Go on to the start of the next line. -/
def synchronize (cursor : Cursor) : Cursor :=
  cursor.skipLine.advance

theorem length_synchronize_le (cursor : Cursor) :
    cursor.synchronize.ahead.length ≤ cursor.ahead.length :=
  Nat.le_trans cursor.skipLine.length_advance_le cursor.length_skipLine_le

theorem length_synchronize_lt {cursor : Cursor} (h : cursor.peek.kind ≠ .done) :
    cursor.synchronize.ahead.length < cursor.ahead.length := by
  rw [synchronize, skipLine]
  split
  · exact length_advance_lt h
  · exact Nat.lt_of_le_of_lt (length_synchronize_le cursor.advance) (length_advance_lt h)

end Cursor

/-! ## Readers -/

/-- Reading from a cursor. If it fails, the cursor stays where it failed. -/
abbrev TokenReader (α : Type) := EStateM Problem Cursor α

namespace TokenReader

variable {α β : Type}

/-- Looking at the cursor moves nothing. -/
theorem get_bind_apply (next : Cursor → TokenReader α) (cursor : Cursor) :
    (get >>= next) cursor = next cursor cursor := rfl

theorem bind_apply (read : TokenReader α) (next : α → TokenReader β) (cursor : Cursor) :
    (read >>= next) cursor =
      match read cursor with
      | .ok a later => next a later
      | .error problem later => .error problem later := by
  show EStateM.bind read next cursor = _
  rw [EStateM.bind]
  cases read cursor <;> rfl

/-- Where the cursor stands behind the reading. -/
def stop : EStateM.Result Problem Cursor α → Cursor
  | .ok _ cursor => cursor
  | .error _ cursor => cursor

/-- The cursor does not go back. -/
def GoesOn (read : TokenReader α) : Prop :=
  ∀ cursor, (stop (read cursor)).ahead.length ≤ cursor.ahead.length

namespace GoesOn

theorem pure (a : α) : GoesOn (Pure.pure a) :=
  fun _ => Nat.le_refl _

theorem throw (problem : Problem) : GoesOn (MonadExcept.throw problem : TokenReader α) :=
  fun _ => Nat.le_refl _

theorem bind {read : TokenReader α} {next : α → TokenReader β} (h : GoesOn read)
    (hnext : ∀ a, GoesOn (next a)) : GoesOn (read >>= next) := by
  intro cursor
  have hfirst := h cursor
  rw [bind_apply]
  cases hread : read cursor with
  | ok a later =>
    rw [hread] at hfirst
    exact Nat.le_trans (hnext a later) hfirst
  | error problem later =>
    rw [hread] at hfirst
    exact hfirst

theorem look {next : Cursor → TokenReader α} (hnext : ∀ cursor, GoesOn (next cursor)) :
    GoesOn (get >>= next) :=
  fun cursor => hnext cursor cursor

theorem mapM {read : α → TokenReader β} (h : ∀ a, GoesOn (read a)) (items : List α) :
    GoesOn (items.mapM read) := by
  induction items with
  | nil => exact pure []
  | cons a items ih =>
    rw [List.mapM_cons]
    exact (h a).bind fun b => ih.bind fun bs => pure (b :: bs)

theorem foldlM {step : β → α → TokenReader β} (h : ∀ b a, GoesOn (step b a)) (b : β)
    (items : List α) : GoesOn (items.foldlM step b) := by
  induction items generalizing b with
  | nil => exact pure b
  | cons a items ih =>
    rw [List.foldlM_cons]
    exact (h b a).bind fun next => ih next

end GoesOn

end TokenReader

end ResourceDecl
