import ResourceDecl.Text.Decimal
import ResourceDecl.Token.Number

/-!
# Printed integers read back

The printed form of an integer is a sign and digits without a leading zero. A reader that meets it
takes all of it and nothing behind it (`readInteger_toString`), and a field makes the same integer
of it again, if it fits 64 bits (`readInt64_toString`).

`StopsAt` says that a reader has to stop: the next character is not of the class that it takes.
-/

namespace ResourceDecl

open Text

/-! ## Readers -/

theorem Reading.map_eq_ok_iff {α β : Type} {f : α → β} {reading : Reading α} {b : β}
    {rest : List Char} :
    reading.map f = (.ok b, rest) ↔ ∃ a, reading = (.ok a, rest) ∧ f a = b := by
  obtain ⟨result, next⟩ := reading
  constructor
  · intro h
    cases result with
    | error fault => cases h
    | ok a =>
      cases h
      exact ⟨a, rfl, rfl⟩
  · rintro ⟨a, hread, rfl⟩
    cases hread
    rfl

theorem skipBlanks_cons {c : Char} (h : isInlineBlank c = false) (rest : List Char) :
    skipBlanks (c :: rest) = c :: rest := by
  rw [skipBlanks, List.dropWhile_cons_of_neg (by simp [h])]

/-- The next character, if there is one, is not of the class. -/
def StopsAt (p : Char → Bool) (rest : List Char) : Prop :=
  ∀ c ∈ rest.head?, p c = false

theorem stopsAt_cons {p : Char → Bool} {c : Char} {rest : List Char} :
    StopsAt p (c :: rest) ↔ p c = false := by
  simp [StopsAt]

theorem stopsAt_nil (p : Char → Bool) : StopsAt p [] :=
  fun _ hc => by cases hc

theorem takeWhile_append_of_stopsAt {p : Char → Bool} {text rest : List Char}
    (htext : ∀ c ∈ text, p c) (hrest : StopsAt p rest) : (text ++ rest).takeWhile p = text := by
  rw [List.takeWhile_append_of_pos htext]
  cases rest with
  | nil => simp
  | cons c rest => simp [stopsAt_cons.mp hrest]

theorem dropWhile_append_of_stopsAt {p : Char → Bool} {text rest : List Char}
    (htext : ∀ c ∈ text, p c) (hrest : StopsAt p rest) : (text ++ rest).dropWhile p = rest := by
  rw [List.dropWhile_append_of_pos htext]
  cases rest with
  | nil => rfl
  | cons c rest => simp [stopsAt_cons.mp hrest]

/-! ## Digits of printed integers -/

/-- The sign of a printed integer. -/
def printedSign (n : Int) : List Char :=
  if n < 0 then ['-'] else []

/-- The digits of a printed integer. -/
def printedDigits (n : Int) : List Char :=
  Nat.toDigits 10 n.natAbs

theorem toList_toString (n : Int) : (toString n).toList = printedSign n ++ printedDigits n := by
  rw [Int.toString_eq_repr, Int.repr_eq_if]
  unfold printedSign printedDigits
  by_cases h : 0 ≤ n
  · have hnot : ¬ n < 0 := by omega
    have habs : n.toNat = n.natAbs := by omega
    simp [h, hnot, habs]
  · have hneg : n < 0 := by omega
    have habs : (-n).toNat = n.natAbs := by omega
    simp [h, hneg, habs]

theorem isDigit_of_mem_printedDigits {n : Int} {c : Char} (h : c ∈ printedDigits n) :
    c.isDigit :=
  Nat.isDigit_of_mem_toDigits (by decide) (by decide) h

theorem not_mem_toString {c : Char} (hdigit : c.isDigit = false) (hsign : c ≠ '-') (n : Int) :
    c ∉ (toString n).toList := by
  rw [toList_toString]
  intro hm
  rcases List.mem_append.mp hm with hm | hm
  · unfold printedSign at hm
    split at hm
    · exact hsign (List.mem_singleton.mp hm)
    · cases hm
  · rw [isDigit_of_mem_printedDigits hm] at hdigit
    cases hdigit

theorem printedDigits_ne_nil (n : Int) : printedDigits n ≠ [] :=
  Nat.toDigits_ne_nil

/-- A positive number does not start with a zero. -/
theorem head?_toDigits_ne_zero (n : Nat) (hn : 0 < n) : (Nat.toDigits 10 n).head? ≠ some '0' := by
  induction n using Nat.strongRecOn with
  | ind n ih =>
    by_cases h : n < 10
    · rw [Nat.toDigits_of_lt_base h]
      intro h0
      have hzero := Nat.digitChar_eq_zero.mp (Option.some.inj h0)
      omega
    · have hsome : (Nat.toDigits 10 (n / 10)).head?.isSome := by
        simp [List.isSome_head?, Nat.toDigits_ne_nil]
      rw [Nat.toDigits_of_base_le (by decide) (by omega), List.head?_append,
        Option.or_of_isSome hsome]
      exact ih (n / 10) (by omega) (by omega)

theorem hasLeadingZero_printedDigits (n : Int) : hasLeadingZero (printedDigits n) = false := by
  unfold printedDigits
  generalize n.natAbs = m
  by_cases h : m < 10
  · rw [Nat.toDigits_of_lt_base h]
    simp [hasLeadingZero]
  · have hhead := head?_toDigits_ne_zero m (by omega)
    unfold hasLeadingZero
    split
    · rename_i heq
      rw [heq] at hhead
      exact absurd rfl hhead
    · rfl

/-- What a numeral starts with. -/
def StartsNumeral (first : Char) (rest : List Char) : Prop :=
  first.isDigit ∨ first = '-' ∧ startsWithDigit rest

theorem StartsNumeral.ne {first other : Char} {rest : List Char} (h : StartsNumeral first rest)
    (hdigit : other.isDigit = false) (hsign : other ≠ '-') : first ≠ other := by
  rintro rfl
  rcases h with h | ⟨h, -⟩
  · rw [h] at hdigit
    cases hdigit
  · exact hsign h

theorem StartsNumeral.not_blank {first : Char} {rest : List Char} (h : StartsNumeral first rest) :
    isInlineBlank first = false := by
  have hspace : first ≠ ' ' := h.ne (by decide) (by decide)
  have htab : first ≠ '\t' := h.ne (by decide) (by decide)
  have hreturn : first ≠ '\r' := h.ne (by decide) (by decide)
  simp [isInlineBlank, hspace, htab, hreturn]

theorem exists_toString_eq_cons (n : Int) :
    ∃ first tail, (toString n).toList = first :: tail ∧
      ∀ rest, StartsNumeral first (tail ++ rest) := by
  obtain ⟨c, digits, hdigits⟩ := List.exists_cons_of_ne_nil (printedDigits_ne_nil n)
  have hc : c.isDigit :=
    isDigit_of_mem_printedDigits (n := n) (by rw [hdigits]; exact List.mem_cons_self)
  rw [toList_toString, hdigits]
  unfold printedSign
  by_cases hneg : n < 0
  · simp only [hneg, if_true]
    exact ⟨'-', c :: digits, rfl, fun rest => .inr ⟨rfl, hc⟩⟩
  · simp only [hneg, if_false]
    exact ⟨c, digits, rfl, fun rest => .inl hc⟩

/-! ## Reading -/

theorem hasStraySeparator_of_digits {digits : List Char} (h : ∀ c ∈ digits, c.isDigit) :
    hasStraySeparator digits = false := by
  induction digits with
  | nil => rfl
  | cons c digits ih =>
    have hc : c ≠ '_' := by
      rintro rfl
      exact absurd (h '_' List.mem_cons_self) (by decide)
    unfold hasStraySeparator
    split <;> simp_all

theorem startsWithDigit_append {text : List Char} (h : startsWithDigit text) (rest : List Char) :
    startsWithDigit (text ++ rest) := by
  cases text with
  | nil => cases h
  | cons c text => exact h

theorem startsWithDigit_printedDigits (n : Int) : startsWithDigit (printedDigits n) := by
  obtain ⟨c, digits, hcons⟩ := List.exists_cons_of_ne_nil (printedDigits_ne_nil n)
  rw [hcons]
  exact isDigit_of_mem_printedDigits (hcons ▸ List.mem_cons_self)

theorem readMagnitude_digits (sign : List Char) {digits rest : List Char}
    (h : ∀ c ∈ digits, c.isDigit) (hzero : hasLeadingZero digits = false)
    (hrest : StopsAt isDigitOrSeparator rest) :
    readMagnitude sign (digits ++ rest) = (.ok (String.ofList (sign ++ digits)), rest) := by
  have hall : ∀ c ∈ digits, isDigitOrSeparator c := by
    intro c hc
    simp [isDigitOrSeparator, h c hc]
  have hfilter : digits.filter Char.isDigit = digits := List.filter_eq_self.mpr h
  simp only [readMagnitude, takeWhile_append_of_stopsAt hall hrest,
    dropWhile_append_of_stopsAt hall hrest, hasStraySeparator_of_digits h, hfilter, hzero]
  rfl

/-- The reader of integers takes a printed integer and nothing behind it. -/
theorem readInteger_toString (n : Int) {rest : List Char}
    (hrest : StopsAt isDigitOrSeparator rest) :
    readInteger ((toString n).toList ++ rest) = (.ok (toString n), rest) := by
  have hdigits : ∀ c ∈ printedDigits n, c.isDigit := fun c hc => isDigit_of_mem_printedDigits hc
  have hread := fun sign => readMagnitude_digits sign hdigits (hasLeadingZero_printedDigits n) hrest
  have hback : String.ofList (printedSign n ++ printedDigits n) = toString n := by
    rw [← toList_toString, String.ofList_toList]
  rw [toList_toString]
  unfold printedSign at hback ⊢
  by_cases hneg : n < 0
  · simp only [hneg, if_true] at hback ⊢
    have hstart := startsWithDigit_append (startsWithDigit_printedDigits n) rest
    simp only [List.cons_append, List.nil_append, readInteger, hstart, if_true]
    rw [hread, hback]
  · simp only [hneg, if_false, List.nil_append] at hback ⊢
    rw [readInteger.eq_def]
    split
    · rename_i tail heq
      obtain ⟨c, digits, hc⟩ := List.exists_cons_of_ne_nil (printedDigits_ne_nil n)
      have hdigit := hdigits c (by rw [hc]; exact List.mem_cons_self)
      rw [hc, List.cons_append] at heq
      cases heq
      exact absurd hdigit (by decide)
    · rw [hread, List.nil_append, hback]

theorem readDigits_printedDigits (n : Int) : readDigits (printedDigits n) = some n.natAbs := by
  have hall : (printedDigits n).all Char.isDigit :=
    List.all_eq_true.mpr fun c hc => isDigit_of_mem_printedDigits hc
  rw [readDigits, if_pos ⟨printedDigits_ne_nil n, hall⟩, printedDigits,
    Nat.ofDigitChars_ten_toDigits]

theorem readSigned_toString (n : Int) : readSigned (toString n).toList = some n := by
  rw [toList_toString]
  unfold printedSign
  by_cases hneg : n < 0
  · have habs : -(n.natAbs : Int) = n := by omega
    rw [if_pos hneg, List.singleton_append, readSigned, readDigits_printedDigits]
    exact congrArg some habs
  · have habs : (n.natAbs : Int) = n := by omega
    obtain ⟨c, digits, hc⟩ := List.exists_cons_of_ne_nil (printedDigits_ne_nil n)
    have hdigit : c.isDigit :=
      isDigit_of_mem_printedDigits (n := n) (by rw [hc]; exact List.mem_cons_self)
    simp only [hneg, if_false, List.nil_append]
    rw [readSigned.eq_def]
    split
    · rename_i heq
      rw [hc] at heq
      cases heq
      exact absurd hdigit (by decide)
    · rename_i heq
      rw [hc] at heq
      cases heq
      exact absurd hdigit (by decide)
    · rw [readDigits_printedDigits]
      exact congrArg some habs

/-- The value of a printed integer is the integer. -/
theorem readInt64_toString {n : Int} (hn : FitsInt64 n) : readInt64 (toString n) = some n := by
  rw [readInt64, readSigned_toString, Option.filter_some, if_pos (by simpa using hn)]

/-- A printed integer in front of anything but a digit is told apart from what follows it. -/
theorem toString_append_inj {m n : Int} {rest other : List Char}
    (hrest : StopsAt isDigitOrSeparator rest) (hother : StopsAt isDigitOrSeparator other)
    (h : (toString m).toList ++ rest = (toString n).toList ++ other) : m = n ∧ rest = other := by
  have hread := readInteger_toString m hrest
  rw [h, readInteger_toString n hother] at hread
  obtain ⟨hresult, hnext⟩ := Prod.mk.inj hread
  have hsigned := readSigned_toString n
  rw [Except.ok.inj hresult, readSigned_toString m] at hsigned
  exact ⟨Option.some.inj hsigned, hnext.symm⟩

end ResourceDecl
