/-!
# Signed decimal numbers of 64 bits

`readInt64` reads an optional sign and at least one ASCII digit, and nothing else; leading zeros
are harmless, a value outside `-2^63 .. 2^63 - 1` is refused.
-/

namespace ResourceDecl.Text

/-- The value fits a signed word of 64 bits. -/
def FitsInt64 (n : Int) : Prop :=
  -9223372036854775808 ≤ n ∧ n ≤ 9223372036854775807

instance (n : Int) : Decidable (FitsInt64 n) :=
  inferInstanceAs (Decidable (_ ∧ _))

/-- The number that a nonempty run of ASCII digits denotes. -/
def readDigits (digits : List Char) : Option Nat :=
  if digits ≠ [] ∧ digits.all Char.isDigit then some (Nat.ofDigitChars 10 digits 0) else none

/-- The number that a signed numeral denotes, whatever its size. -/
def readSigned : List Char → Option Int
  | '-' :: digits => (readDigits digits).map fun n => -(n : Int)
  | '+' :: digits => (readDigits digits).map fun n => (n : Int)
  | digits => (readDigits digits).map fun n => (n : Int)

/-- The number that a signed numeral denotes, if it fits 64 bits. -/
def readInt64 (numeral : String) : Option Int :=
  (readSigned numeral.toList).filter fun n => decide (FitsInt64 n)

theorem fitsInt64_of_readInt64 {numeral : String} {n : Int} (h : readInt64 numeral = some n) :
    FitsInt64 n := by
  simpa using (Option.filter_eq_some_iff.mp h).2

end ResourceDecl.Text
