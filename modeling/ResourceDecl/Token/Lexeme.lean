import ResourceDecl.Token.Array
import ResourceDecl.Token.Quote

/-!
# Lexemes

`readLexeme` reads the one token that starts with a given character. Words are keywords and
identifiers; everything else is decided by the first character.
-/

namespace ResourceDecl

/-- Read a word whose first character was read. -/
def readWord (first : Char) (rest : List Char) : Reading TokenKind :=
  (.ok (.ofWord (String.ofList (first :: rest.takeWhile isWordChar))), rest.dropWhile isWordChar)

/-- Read the token that starts with `first`. -/
def readLexeme (first : Char) (rest : List Char) : Reading TokenKind :=
  if first = '"' then readString rest
  else if first = '[' then readArray rest
  else if first.isDigit ∨ first = '-' ∧ startsWithDigit rest then readNumber (first :: rest)
  else if isWordStart first then readWord first rest
  else (.error .unexpectedCharacter, rest)

theorem length_readLexeme_le (first : Char) (rest : List Char) :
    (readLexeme first rest).2.length ≤ rest.length := by
  rw [readLexeme]
  split
  · exact length_readString_le rest
  · split
    · exact length_readArray_le rest
    · split
      · rename_i hn
        have h : first = '-' ∨ first.isDigit := hn.elim .inr fun h => .inl h.1
        exact Nat.le_of_lt_succ (length_readNumber_lt h)
      · split
        · exact length_dropWhile_le _ _
        · exact Nat.le_refl _

end ResourceDecl
