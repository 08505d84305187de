import ResourceDecl.Proofs.Places.Positions
import ResourceDecl.Proofs.Tokens.Brackets

/-!
# Texts of tokens

`Literal` says which texts stand for a token: the literals of numbers and of arrays, strings, and
words. Whatever a source holds, each token that could be read covers a text that stands for it
(`SourceLine.exists_literal`), so what is true of texts is true of tokens.
-/

namespace ResourceDecl

open Text

/-- The text stands for the token. -/
inductive Literal : List Char → TokenKind → Prop
  | number {text : List Char} {kind : TokenKind} : NumberLiteral text kind → Literal text kind
  | array {text : List Char} {kind : TokenKind} : ArrayLiteral .any text kind → Literal text kind
  | quoted {content : List Char} :
      IsContent content → Literal ('"' :: (content ++ ['"'])) (.ofContent content)
  | word {word : String} : isWord word → Literal word.toList (.ofWord word)

/-! ## Which texts a kind of token has -/

namespace TokenKind

theorem ofWord_cases (word : String) :
    (∃ k, ofWord word = .keyword k) ∨ ofWord word = .ident word := by
  unfold ofWord
  split
  · exact .inl ⟨_, rfl⟩
  · exact .inr rfl

/-- An integer, or an integer with a unit. -/
def isNumber : TokenKind → Bool
  | int _ | size _ _ => true
  | _ => false

/-- An array of integers, or an array of such arrays. -/
def isArray : TokenKind → Bool
  | intArray _ | intRows _ => true
  | _ => false

end TokenKind

namespace Literal

variable {text : List Char} {kind : TokenKind}

/-- Words and strings are no integers and no arrays. -/
theorem integers_cases (h : Literal text kind) (hkind : kind.isNumber ∨ kind.isArray) :
    NumberLiteral text kind ∨ ArrayLiteral .any text kind := by
  cases h with
  | number hnumber => exact .inl hnumber
  | array harray => exact .inr harray
  | @quoted content _ =>
    rcases TokenKind.ofContent_cases content with heq | ⟨key, heq, -⟩ <;> rw [heq] at hkind <;>
      simp [TokenKind.isNumber, TokenKind.isArray] at hkind
  | @word word _ =>
    rcases TokenKind.ofWord_cases word with ⟨k, heq⟩ | heq <;> rw [heq] at hkind <;>
      simp [TokenKind.isNumber, TokenKind.isArray] at hkind

theorem number_of_isNumber (h : Literal text kind) (hkind : kind.isNumber) :
    NumberLiteral text kind := by
  rcases h.integers_cases (.inl hkind) with hnumber | harray
  · exact hnumber
  · cases harray <;> cases hkind

theorem array_of_isArray (h : Literal text kind) (hkind : kind.isArray) :
    ArrayLiteral .any text kind := by
  rcases h.integers_cases (.inr hkind) with hnumber | harray
  · cases hnumber <;> cases hkind
  · exact harray

end Literal

/-! ## Reading a lexeme -/

/-- What the reader of lexemes takes stands for the token. -/
theorem literal_of_readLexeme {first : Char} {tail next : List Char} {kind : TokenKind}
    (h : readLexeme first tail = (.ok kind, next)) :
    ∃ text, first :: tail = text ++ next ∧ Literal text kind := by
  rw [readLexeme] at h
  split at h
  · rename_i hquote
    obtain ⟨content, hread, rfl⟩ := Reading.map_eq_ok_iff.mp h
    obtain ⟨_, hbody, rfl, rfl⟩ := readContent_sound hread
    exact ⟨'"' :: (content ++ ['"']), by simp [hquote], .quoted hbody⟩
  · split at h
    · rename_i hopen
      obtain ⟨part, rfl, harray⟩ := arrayLiteral_of_readArray h
      exact ⟨'[' :: part, by simp [hopen], .array harray⟩
    · split at h
      · rename_i hnumeral
        have hstart : first = '-' ∨ first.isDigit := hnumeral.elim .inr fun h => .inl h.1
        obtain ⟨text, htext, hnumber, -⟩ := readNumber_sound hstart h
        exact ⟨text, htext, .number hnumber⟩
      · split at h
        · rename_i hstart
          cases h
          have hword : isWord (String.ofList (first :: tail.takeWhile isWordChar)) := by
            simp only [isWord, String.toList_ofList, Bool.and_eq_true, List.all_eq_true]
            exact ⟨hstart, fun c hc => List.mem_takeWhile_imp hc⟩
          refine ⟨first :: tail.takeWhile isWordChar, ?_, ?_⟩
          · rw [List.cons_append, List.takeWhile_append_dropWhile]
          · simpa using Literal.word hword
        · cases h

/-! ## Tokens of a source -/

theorem scanRest_literal (line : Nat) (seen : Bool) (start column : Nat) (rest : List Char) :
    ∀ token ∈ (scanRest line seen start column rest).tokens,
      token.kind ≠ .unreadable → ∃ before text after, rest = before ++ (text ++ after) ∧
        token.span.start = start + byteLength before ∧
        token.span.stop = token.span.start + byteLength text ∧ Literal text token.kind := by
  induction seen, start, column, rest using scanRest.induct line with
  | case1 _ _ _ _ hs =>
    rw [scanRest_blank hs]
    simp
  | case2 _ _ _ _ _ _ hs hc =>
    rw [scanRest_comment hs hc]
    simp
  | case3 seen start column rest gap _ _ first tail hs hc kind next hr text stop ih =>
    obtain ⟨lexeme, hlexeme, hliteral⟩ := literal_of_readLexeme hr
    have hgap : rest = gap ++ (lexeme ++ next) := by rw [← hlexeme, gap_append hs]
    rw [scanRest_token hs hc hr, hlexeme, consumed_append_right]
    refine List.forall_mem_cons.mpr ⟨fun _ => ?_, fun token hm hread => ?_⟩
    · exact ⟨gap, lexeme, next, hgap, rfl, rfl, hliteral⟩
    · have hconsumed : text = lexeme := by
        show consumed (first :: tail) next = lexeme
        rw [hlexeme, consumed_append_right]
      rw [← hconsumed] at hm
      obtain ⟨before, part, after, rfl, hstart, hstop, hpart⟩ := ih token hm hread
      refine ⟨gap ++ (lexeme ++ before), part, after, by simp [hgap], ?_, hstop, hpart⟩
      rw [hstart, byteLength_append, byteLength_append, ← hconsumed, ← Nat.add_assoc,
        ← Nat.add_assoc]
  | case4 _ _ _ _ _ _ hs hc _ _ hr =>
    rw [scanRest_fault hs hc hr]
    simp

/-- A token of a line that could be read covers a text that stands for it. -/
theorem SourceLine.exists_literal {source : List Char} {line : SourceLine}
    (h : line ∈ sourceLines source) {token : Token} (hm : token ∈ line.held.tokens)
    (hread : token.kind ≠ .unreadable) :
    ∃ text, slice? source token.span = some text ∧ Literal text token.kind := by
  have hfree := not_mem_of_mem_sourceLines h
  obtain ⟨before, text, after, htext, hstart, hstop, hliteral⟩ :=
    scanRest_literal _ _ _ _ _ token hm hread
  have hmarks := (standsIn_of_mem_sourceLines h).marks hfree htext hstart hstop
  exact ⟨text, hmarks.slice?_eq, hliteral⟩

end ResourceDecl
