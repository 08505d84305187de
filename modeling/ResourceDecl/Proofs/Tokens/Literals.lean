import ResourceDecl.Proofs.Tokens.Delimited

/-!
# Literals of numbers

`Numeral` is the grammar of integers, and it says which integer a text denotes: an optional minus
sign, and then `0`, or digits that do not start with it and that single underscores may separate.
A text may be of any length, and so may the integer.

* `readInteger_complete`, `readInteger_sound`: the reader of integers takes the numerals and
  nothing else, and it keeps them without underscores.
* `Numeral.readSigned_eq`: what is kept still denotes the same integer.
* `NumberLiteral`, `readNumber_complete`, `readNumber_sound`: the same with units.
-/

namespace ResourceDecl

open Text

/-! ## The grammar -/

/-- The number that a digit denotes. -/
def digitValue (d : Char) : Nat :=
  d.toNat - '0'.toNat

/-- Behind digits that denote the first number, the text goes on with digits, each of them with a
single underscore in front of it or none. All digits together denote the second number. -/
inductive GoesOnTo : Nat → List Char → Nat → Prop
  | done (n : Nat) : GoesOnTo n [] n
  | digit {n m : Nat} {d : Char} {text : List Char} :
      d.isDigit → GoesOnTo (10 * n + digitValue d) text m → GoesOnTo n (d :: text) m
  | separated {n m : Nat} {d : Char} {text : List Char} :
      d.isDigit → GoesOnTo (10 * n + digitValue d) text m → GoesOnTo n ('_' :: d :: text) m

/-- A number as it is written, without a sign. -/
inductive Magnitude : List Char → Nat → Prop
  | zero : Magnitude ['0'] 0
  | positive {d : Char} {text : List Char} {n : Nat} :
      d.isDigit → d ≠ '0' → GoesOnTo (digitValue d) text n → Magnitude (d :: text) n

/-- An integer as it is written. -/
inductive Numeral : List Char → Int → Prop
  | unsigned {text : List Char} {n : Nat} : Magnitude text n → Numeral text n
  | negative {text : List Char} {n : Nat} : Magnitude text n → Numeral ('-' :: text) (-n)

/-- The text without its underscores. -/
def unseparated (text : List Char) : String :=
  String.ofList (text.filter (· != '_'))

theorem unseparated_negative (text : List Char) :
    unseparated ('-' :: text) = String.ofList (['-'] ++ text.filter (· != '_')) :=
  rfl

/-- The letters that stand for a unit. -/
def SizeUnit.letters : SizeUnit → List Char
  | pixels => ['p', 'P']
  | frames => ['f', 'F']

theorem SizeUnit.ofChar?_eq_some_iff {c : Char} {unit : SizeUnit} :
    ofChar? c = some unit ↔ c ∈ unit.letters := by
  constructor
  · intro h
    unfold ofChar? at h
    split at h <;> cases h <;> decide
  · intro h
    cases unit <;> rcases List.mem_pair.mp h with rfl | rfl <;> rfl

/-- An integer or a size as it is written, and the token that is made of it. -/
inductive NumberLiteral : List Char → TokenKind → Prop
  | int {text : List Char} {n : Int} : Numeral text n → NumberLiteral text (.int (unseparated text))
  | size {text : List Char} {n : Int} {c : Char} {unit : SizeUnit} :
      Numeral text n → c ∈ unit.letters →
        NumberLiteral (text ++ [c]) (.size (unseparated text) unit)

/-! ## Digits and underscores -/

theorem isDigit_iff_ne_separator {c : Char} (h : isDigitOrSeparator c) :
    c.isDigit = (c != '_') := by
  by_cases hc : c = '_'
  · subst hc
    rfl
  · have hdigit : c.isDigit := by simpa [isDigitOrSeparator, hc] using h
    simp [hdigit, hc]

theorem filter_isDigit_eq {text : List Char} (h : ∀ c ∈ text, isDigitOrSeparator c) :
    text.filter Char.isDigit = text.filter (· != '_') :=
  List.filter_congr fun c hc => isDigit_iff_ne_separator (h c hc)

theorem ne_separator_of_isDigit {d : Char} (h : d.isDigit) : d ≠ '_' := by
  rintro rfl
  exact absurd h (by decide)

theorem isDigitOrSeparator_of_isDigit {d : Char} (h : d.isDigit) : isDigitOrSeparator d := by
  simp [isDigitOrSeparator, h]

/-- A separator is passed over in front of a digit. -/
theorem GoesOnTo.behind_separator {n m : Nat} {d : Char} {text : List Char} (hd : d.isDigit)
    (h : GoesOnTo n (d :: text) m) : GoesOnTo n ('_' :: d :: text) m := by
  generalize hcons : d :: text = whole at h
  cases h with
  | done => cases hcons
  | digit _ hrest =>
    cases hcons
    exact .separated hd hrest
  | separated =>
    cases hcons
    exact absurd hd (by decide)

/-- Digits and underscores go on with a number unless an underscore is out of place. -/
theorem exists_goesOnTo {text : List Char} (hall : ∀ c ∈ text, isDigitOrSeparator c)
    (hstray : hasStraySeparator text = false) (n : Nat) : ∃ m, GoesOnTo n text m := by
  fun_induction hasStraySeparator text generalizing n with
  | case1 => exact ⟨n, .done n⟩
  | case2 => cases hstray
  | case3 => cases hstray
  | case4 c text hlast hdouble ih =>
    obtain ⟨hc, htext⟩ := List.forall_mem_cons.mp hall
    by_cases hseparator : c = '_'
    · subst hseparator
      cases text with
      | nil => exact absurd rfl (hlast rfl)
      | cons d text =>
        have hd : d.isDigit := by
          rw [isDigit_iff_ne_separator (htext d List.mem_cons_self), bne_iff_ne]
          rintro rfl
          exact hdouble text rfl rfl
        obtain ⟨m, hm⟩ := ih htext hstray n
        exact ⟨m, hm.behind_separator hd⟩
    · have hd : c.isDigit := by
        rw [isDigit_iff_ne_separator hc, bne_iff_ne]
        exact hseparator
      obtain ⟨m, hm⟩ := ih htext hstray (10 * n + digitValue c)
      exact ⟨m, .digit hd hm⟩

namespace GoesOnTo

variable {n m : Nat} {text : List Char}

theorem isDigitOrSeparator (h : GoesOnTo n text m) : ∀ c ∈ text, isDigitOrSeparator c := by
  induction h with
  | done => simp
  | digit hd _ ih => exact List.forall_mem_cons.mpr ⟨isDigitOrSeparator_of_isDigit hd, ih⟩
  | separated hd _ ih =>
    exact List.forall_mem_cons.mpr ⟨rfl, List.forall_mem_cons.mpr
      ⟨isDigitOrSeparator_of_isDigit hd, ih⟩⟩

theorem hasStraySeparator (h : GoesOnTo n text m) : hasStraySeparator text = false := by
  have hcons {d : Char} (hd : d.isDigit) (text : List Char) :
      ResourceDecl.hasStraySeparator (d :: text) = ResourceDecl.hasStraySeparator text := by
    have hne := ne_separator_of_isDigit hd
    rw [ResourceDecl.hasStraySeparator] <;> simp [hne]
  induction h with
  | done => rfl
  | digit hd _ ih => rw [hcons hd, ih]
  | separated hd _ ih =>
    have hne := ne_separator_of_isDigit hd
    rw [ResourceDecl.hasStraySeparator, hcons hd, ih] <;> simp [hne]

/-- The digits alone denote the same number. -/
theorem ofDigitChars_eq (h : GoesOnTo n text m) :
    Nat.ofDigitChars 10 (text.filter (· != '_')) n = m := by
  induction h with
  | done => rfl
  | digit hd _ ih =>
    rw [List.filter_cons_of_pos (by simpa using ne_separator_of_isDigit hd),
      Nat.ofDigitChars_cons]
    exact ih
  | separated hd _ ih =>
    rw [List.filter_cons_of_neg (by simp),
      List.filter_cons_of_pos (by simpa using ne_separator_of_isDigit hd), Nat.ofDigitChars_cons]
    exact ih

end GoesOnTo

/-! ## Magnitudes -/

/-- Digits and underscores that begin with a digit are a number, unless an underscore is out of
place or a zero stands in front of a digit. -/
theorem exists_magnitude {d : Char} {text : List Char} (hd : d.isDigit)
    (hall : ∀ c ∈ text, isDigitOrSeparator c) (hstray : hasStraySeparator (d :: text) = false)
    (hzero : hasLeadingZero ((d :: text).filter Char.isDigit) = false) :
    ∃ n, Magnitude (d :: text) n := by
  have hne := ne_separator_of_isDigit hd
  have hrest : hasStraySeparator text = false := by
    rw [hasStraySeparator] at hstray <;> simp_all
  obtain ⟨n, hn⟩ := exists_goesOnTo hall hrest (digitValue d)
  by_cases hd0 : d = '0'
  · subst hd0
    cases hn with
    | done => exact ⟨0, .zero⟩
    | digit hsecond => simp [hd, hsecond, hasLeadingZero] at hzero
    | separated hsecond => simp [hd, hsecond, hasLeadingZero] at hzero
  · exact ⟨n, .positive hd hd0 hn⟩

namespace Magnitude

variable {text : List Char} {n : Nat}

theorem exists_cons (h : Magnitude text n) :
    ∃ d rest, text = d :: rest ∧ d.isDigit ∧ GoesOnTo (digitValue d) rest n ∧
      (d = '0' → rest = []) := by
  cases h with
  | zero => exact ⟨'0', [], rfl, rfl, .done 0, fun _ => rfl⟩
  | positive hd hne hrest => exact ⟨_, _, rfl, hd, hrest, fun heq => absurd heq hne⟩

/-- The digits alone denote the same number. -/
theorem readDigits_eq (h : Magnitude text n) :
    readDigits (text.filter (· != '_')) = some n := by
  obtain ⟨d, rest, rfl, hd, hrest, -⟩ := h.exists_cons
  have hdigits : ∀ c ∈ rest.filter (· != '_'), c.isDigit := by
    intro c hc
    obtain ⟨hm, hne⟩ := List.mem_filter.mp hc
    rw [isDigit_iff_ne_separator (hrest.isDigitOrSeparator c hm)]
    exact hne
  rw [List.filter_cons_of_pos (by simpa using ne_separator_of_isDigit hd), readDigits,
    if_pos ⟨List.cons_ne_nil _ _, List.all_eq_true.mpr (List.forall_mem_cons.mpr ⟨hd, hdigits⟩)⟩,
    Nat.ofDigitChars_cons, Nat.mul_zero, Nat.zero_add]
  exact congrArg some hrest.ofDigitChars_eq

/-- The reader of digits takes a number and nothing behind it. -/
theorem readMagnitude_eq (h : Magnitude text n) (sign : List Char) {rest : List Char}
    (hrest : StopsAt ResourceDecl.isDigitOrSeparator rest) :
    readMagnitude sign (text ++ rest) =
      (.ok (String.ofList (sign ++ text.filter (· != '_'))), rest) := by
  obtain ⟨d, tail, rfl, hd, htail, hzero⟩ := h.exists_cons
  have hall : ∀ c ∈ d :: tail, isDigitOrSeparator c :=
    List.forall_mem_cons.mpr ⟨isDigitOrSeparator_of_isDigit hd, htail.isDigitOrSeparator⟩
  have hne := ne_separator_of_isDigit hd
  have hstray : hasStraySeparator (d :: tail) = false := by
    rw [hasStraySeparator, htail.hasStraySeparator] <;> simp [hne]
  have hleading : hasLeadingZero ((d :: tail).filter (· != '_')) = false := by
    rw [List.filter_cons_of_pos (by simpa using hne)]
    unfold hasLeadingZero
    split
    · rename_i heq
      obtain ⟨rfl, hmore⟩ := List.cons.inj heq
      rw [hzero rfl] at hmore
      cases hmore
    · rfl
  simp only [readMagnitude, takeWhile_append_of_stopsAt hall hrest,
    dropWhile_append_of_stopsAt hall hrest, hstray, filter_isDigit_eq hall, hleading]
  rfl

end Magnitude

theorem readMagnitude_sound {sign text next : List Char} {numeral : String}
    (hdigit : startsWithDigit text) (h : readMagnitude sign text = (.ok numeral, next)) :
    ∃ body n, text = body ++ next ∧ Magnitude body n ∧
      numeral = String.ofList (sign ++ body.filter (· != '_')) ∧
      StopsAt isDigitOrSeparator next := by
  have hall : ∀ c ∈ text.takeWhile isDigitOrSeparator, isDigitOrSeparator c := fun c =>
    List.mem_takeWhile_imp
  have hsplit := List.takeWhile_append_dropWhile (p := isDigitOrSeparator) (l := text)
  obtain ⟨hresult, rfl⟩ := Prod.mk.inj h
  cases text with
  | nil => cases hdigit
  | cons d tail =>
    have hd : d.isDigit := hdigit
    rw [List.takeWhile_cons_of_pos (isDigitOrSeparator_of_isDigit hd)] at hall hsplit hresult
    split at hresult
    · cases hresult
    · rename_i hstray
      split at hresult
      · cases hresult
      · rename_i hzero
        obtain ⟨n, hn⟩ := exists_magnitude hd (fun c hc => hall c (List.mem_cons_of_mem _ hc))
          (Bool.eq_false_iff.mpr hstray) (Bool.eq_false_iff.mpr hzero)
        refine ⟨_, n, hsplit.symm, hn, ?_, stopsAt_dropWhile _ _⟩
        rw [← filter_isDigit_eq hall]
        exact (Except.ok.inj hresult).symm

/-! ## Integers -/

/-- An integer starts as one, whatever stands behind it. -/
theorem Numeral.exists_cons {text : List Char} {n : Int} (h : Numeral text n) :
    ∃ first tail, text = first :: tail ∧ ∀ rest, StartsNumeral first (tail ++ rest) := by
  cases h with
  | unsigned hn =>
    obtain ⟨d, tail, rfl, hd, -⟩ := hn.exists_cons
    exact ⟨d, tail, rfl, fun _ => .inl hd⟩
  | negative hn =>
    obtain ⟨d, tail, rfl, hd, -⟩ := hn.exists_cons
    exact ⟨'-', d :: tail, rfl, fun _ => .inr ⟨rfl, hd⟩⟩

/-- What is kept of a numeral denotes the same integer. -/
theorem Numeral.readSigned_eq {text : List Char} {n : Int} (h : Numeral text n) :
    readSigned (unseparated text).toList = some n := by
  rw [unseparated, String.toList_ofList]
  cases h with
  | unsigned hn =>
    have hread := hn.readDigits_eq
    obtain ⟨d, tail, rfl, hd, -⟩ := hn.exists_cons
    rw [List.filter_cons_of_pos (by simpa using ne_separator_of_isDigit hd)] at hread ⊢
    rw [readSigned.eq_def]
    split
    · rename_i heq
      cases heq
      exact absurd hd (by decide)
    · rename_i heq
      cases heq
      exact absurd hd (by decide)
    · rw [hread]
      rfl
  | negative hn =>
    rw [List.filter_cons_of_pos (by decide), readSigned, hn.readDigits_eq]
    rfl

/-- The reader of integers takes a numeral and nothing behind it. -/
theorem readInteger_complete {text rest : List Char} {n : Int} (h : Numeral text n)
    (hrest : StopsAt isDigitOrSeparator rest) :
    readInteger (text ++ rest) = (.ok (unseparated text), rest) := by
  cases h with
  | unsigned hn =>
    obtain ⟨d, tail, rfl, hd, -⟩ := hn.exists_cons
    rw [List.cons_append, readInteger, ← List.cons_append, hn.readMagnitude_eq [] hrest]
    · rfl
    · rintro _ ⟨⟩
      exact absurd hd (by decide)
  | @negative body n hn =>
    obtain ⟨d, tail, rfl, hd, -⟩ := hn.exists_cons
    have hstart : startsWithDigit (d :: tail ++ rest) := hd
    rw [List.cons_append, readInteger, if_pos hstart, hn.readMagnitude_eq _ hrest,
      unseparated_negative]

/-- What the reader of integers takes is a numeral. -/
theorem readInteger_sound {c : Char} {tail next : List Char} {numeral : String}
    (hc : c = '-' ∨ c.isDigit) (h : readInteger (c :: tail) = (.ok numeral, next)) :
    ∃ text n, c :: tail = text ++ next ∧ Numeral text n ∧ numeral = unseparated text ∧
      StopsAt isDigitOrSeparator next := by
  by_cases hsign : c = '-'
  · subst hsign
    rw [readInteger] at h
    split at h
    · rename_i hdigit
      obtain ⟨body, n, rfl, hn, rfl, hstop⟩ := readMagnitude_sound hdigit h
      exact ⟨'-' :: body, _, rfl, .negative hn, unseparated_negative body, hstop⟩
    · cases h
  · rw [readInteger] at h
    · have hdigit : startsWithDigit (c :: tail) := hc.resolve_left hsign
      obtain ⟨body, n, htext, hn, rfl, hstop⟩ := readMagnitude_sound hdigit h
      exact ⟨body, _, htext, .unsigned hn, rfl, hstop⟩
    · rintro _ ⟨⟩
      exact hsign rfl

/-! ## Integers and sizes -/

/-- The reader of numbers takes a literal in front of anything that goes on with no word. -/
theorem readNumber_complete {text rest : List Char} {kind : TokenKind}
    (h : NumberLiteral text kind) (hrest : StopsAt isWordChar rest) :
    readNumber (text ++ rest) = (.ok kind, rest) := by
  have hstop : StopsAt isDigitOrSeparator rest := by
    intro c hc
    cases hdigit : isDigitOrSeparator c with
    | false => rfl
    | true =>
      have hword := isWordChar_of_isDigitOrSeparator hdigit
      rw [hrest c hc] at hword
      cases hword
  cases h with
  | int hn =>
    rw [readNumber, readInteger_complete hn hstop]
    simp [readUnit?_eq_none hrest, hrest.startsWithWordChar]
  | @size body n c unit hn hc =>
    have hletter : StopsAt isDigitOrSeparator (c :: rest) := by
      apply stopsAt_cons.mpr
      cases unit <;> rcases List.mem_pair.mp hc with rfl | rfl <;> rfl
    have hunit : readUnit? (c :: rest) = some (unit, rest) := readUnit?_eq_some_iff.mpr
      ⟨c, rfl, hrest.startsWithWordChar, SizeUnit.ofChar?_eq_some_iff.mpr hc⟩
    rw [List.append_assoc, List.singleton_append, readNumber, readInteger_complete hn hletter]
    simp only [hunit]

/-- What the reader of numbers takes is a literal, and no word goes on behind it. -/
theorem readNumber_sound {c : Char} {tail next : List Char} {kind : TokenKind}
    (hc : c = '-' ∨ c.isDigit) (h : readNumber (c :: tail) = (.ok kind, next)) :
    ∃ text, c :: tail = text ++ next ∧ NumberLiteral text kind ∧ StopsAt isWordChar next := by
  rw [readNumber] at h
  split at h
  · cases h
  · rename_i numeral left hinteger
    obtain ⟨text, n, htext, hn, rfl, -⟩ := readInteger_sound hc hinteger
    rw [htext]
    split at h
    · rename_i unit behind hunit
      cases h
      obtain ⟨u, rfl, hword, hu⟩ := readUnit?_eq_some_iff.mp hunit
      exact ⟨text ++ [u], by simp, .size hn (SizeUnit.ofChar?_eq_some_iff.mp hu),
        stopsAt_isWordChar hword⟩
    · split at h
      · cases h
      · rename_i hword
        cases h
        exact ⟨text, rfl, .int hn, stopsAt_isWordChar (Bool.eq_false_iff.mpr hword)⟩

end ResourceDecl
