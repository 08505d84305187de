import ResourceDecl.Token.Basic
import ResourceDecl.Token.Reading

/-!
# Integers and sizes

An integer is an optional minus sign and digits; single underscores may stand between digits, and
a leading zero stands alone. A size carries a unit letter.

* `readInteger`: reads the sign, the digits and the underscores, and gives sign and digits.
* `readNumber`: reads the unit as well, and refuses a number that runs into a word.
-/

namespace ResourceDecl

/-- The digits and underscores of an integer. -/
def isDigitOrSeparator (c : Char) : Bool :=
  c.isDigit || c == '_'

/-- An underscore is followed by an underscore or by nothing. -/
def hasStraySeparator : List Char → Bool
  | [] => false
  | ['_'] => true
  | '_' :: '_' :: _ => true
  | _ :: rest => hasStraySeparator rest

/-- Zero in front of further digits. -/
def hasLeadingZero : List Char → Bool
  | '0' :: _ :: _ => true
  | _ => false

/-- Read the digits of an integer; the first character is a digit. -/
def readMagnitude (sign : List Char) (rest : List Char) : Reading String :=
  let body := rest.takeWhile isDigitOrSeparator
  let digits := body.filter Char.isDigit
  let result :=
    if hasStraySeparator body then .error .misplacedSeparator
    else if hasLeadingZero digits then .error .leadingZero
    else .ok (String.ofList (sign ++ digits))
  (result, rest.dropWhile isDigitOrSeparator)

/-- The next character is a digit. -/
def startsWithDigit : List Char → Bool
  | c :: _ => c.isDigit
  | [] => false

/-- The next character continues a word. -/
def startsWithWordChar : List Char → Bool
  | c :: _ => isWordChar c
  | [] => false

/-- Read an integer; the first character is a minus sign or a digit. -/
def readInteger : List Char → Reading String
  | '-' :: rest =>
    if startsWithDigit rest then readMagnitude ['-'] rest else (.error .digitsExpected, rest)
  | rest => readMagnitude [] rest

/-- Read a unit letter that no word character follows. -/
def readUnit? : List Char → Option (SizeUnit × List Char)
  | c :: rest =>
    if startsWithWordChar rest then none else (SizeUnit.ofChar? c).map fun unit => (unit, rest)
  | [] => none

/-- Read an integer or a size. -/
def readNumber (rest : List Char) : Reading TokenKind :=
  match readInteger rest with
  | (.error fault, rest) => (.error fault, rest)
  | (.ok numeral, rest) =>
    match readUnit? rest with
    | some (unit, rest) => (.ok (.size numeral unit), rest)
    | none =>
      if startsWithWordChar rest then
        (.error .malformedInteger, rest.dropWhile isWordChar)
      else
        (.ok (.int numeral), rest)

/-! ## Readers go forward -/

theorem length_readMagnitude_lt {sign rest : List Char} (h : startsWithDigit rest) :
    (readMagnitude sign rest).2.length < rest.length := by
  match rest with
  | c :: rest =>
    have hc : isDigitOrSeparator c := by
      simp only [startsWithDigit] at h
      simp [isDigitOrSeparator, h]
    simp only [readMagnitude, List.dropWhile_cons_of_pos hc, List.length_cons]
    exact Nat.lt_succ_of_le (length_dropWhile_le _ _)

theorem length_readInteger_lt {c : Char} {rest : List Char} (h : c = '-' ∨ c.isDigit) :
    (readInteger (c :: rest)).2.length < (c :: rest).length := by
  rw [readInteger.eq_def]
  split
  · rename_i tail heq
    cases heq
    split
    · rename_i hd
      exact Nat.lt_succ_of_lt (length_readMagnitude_lt hd)
    · exact Nat.lt_succ_self _
  · rename_i hne
    refine length_readMagnitude_lt ?_
    rcases h with rfl | h
    · exact absurd rfl (hne rest)
    · exact h

theorem length_readUnit?_lt {rest tail : List Char} {unit : SizeUnit}
    (h : readUnit? rest = some (unit, tail)) : tail.length < rest.length := by
  match rest with
  | c :: rest =>
    simp only [readUnit?] at h
    split at h
    · cases h
    · obtain ⟨_, _, heq⟩ := Option.map_eq_some_iff.mp h
      cases heq
      exact Nat.lt_succ_self _

theorem length_readNumber_lt {c : Char} {rest : List Char} (h : c = '-' ∨ c.isDigit) :
    (readNumber (c :: rest)).2.length < (c :: rest).length := by
  have hi : (readInteger (c :: rest)).2.length < (c :: rest).length := length_readInteger_lt h
  rw [readNumber]
  split
  · rename_i heq
    simpa [heq] using hi
  · rename_i tail heq
    rw [heq] at hi
    split
    · rename_i hu
      exact Nat.lt_trans (length_readUnit?_lt hu) hi
    · split
      · exact Nat.lt_of_le_of_lt (length_dropWhile_le _ _) hi
      · exact hi

end ResourceDecl
