import ResourceDecl.Proofs.Tokens.Payload

/-!
# Tokens delimit themselves

A token is read from its own characters. What stands behind it may be replaced by anything else
that begins alike, or that begins with a character that no token goes on with.

* `FollowsLike`: what may stand behind a token instead of what does.
* `Delimits`: a reader takes a value from a part of a text, whatever follows like this.
* `readNumber_delimits`, `readRow_delimited`, `readArray_delimits`: the readers one by one.
* `readLexeme_delimits`: the reader of lexemes.
-/

namespace ResourceDecl

open Text

/-! ## What follows a token -/

/-- No token goes on with the character. -/
def endsLexeme (c : Char) : Bool :=
  !isWordChar c && c != '['

/-- The text may stand in the place of the other one behind a token: it begins alike, or with a
character that no token goes on with. -/
def FollowsLike (next rest : List Char) : Prop :=
  ∀ c ∈ rest.head?, c ∈ next.head? ∨ endsLexeme c

theorem followsLike_append {gap : List Char} (hne : gap ≠ []) (next rest : List Char) :
    FollowsLike (gap ++ next) (gap ++ rest) := by
  cases gap with
  | nil => exact absurd rfl hne
  | cons c gap => exact fun d hd => .inl hd

theorem followsLike_concat {c : Char} (hc : endsLexeme c) (next : List Char) :
    FollowsLike next (next ++ [c]) := by
  cases next with
  | nil =>
    rintro _ ⟨⟩
    exact .inr hc
  | cons d next => exact fun e he => .inl he

/-- What follows may be cut short. -/
theorem followsLike_left (next rest : List Char) : FollowsLike (next ++ rest) next := by
  cases next with
  | nil => exact fun c hc => by cases hc
  | cons c next => exact fun d hd => .inl hd

/-- A reader that stops in front of the one text stops in front of the other one. -/
theorem FollowsLike.stopsAt {p : Char → Bool} {next rest : List Char} (h : FollowsLike next rest)
    (hnext : StopsAt p next) (hp : ∀ c, endsLexeme c → p c = false) : StopsAt p rest := by
  intro c hc
  exact (h c hc).elim (hnext c) (hp c)

/-- The reader takes the value from the part of a text that stands in front of `next`, and it does
so in front of everything that follows alike. No blank ends the part. -/
structure Delimits {α : Type} (read : List Char → Reading α) (part next : List Char) (value : α) :
    Prop where
  reads : ∀ rest, FollowsLike next rest → read (part ++ rest) = (.ok value, rest)
  closed : ∀ c ∈ part.getLast?, isInlineBlank c = false

theorem closed_concat {c : Char} (hc : isInlineBlank c = false) (front : List Char) :
    ∀ d ∈ (front ++ [c]).getLast?, isInlineBlank d = false := by
  rw [List.getLast?_concat]
  rintro _ ⟨⟩
  exact hc

/-! ## Numbers -/

theorem stopsAt_dropWhile (p : Char → Bool) (text : List Char) : StopsAt p (text.dropWhile p) := by
  intro c hc
  have hhead := List.head?_dropWhile_not p text
  rwa [hc] at hhead

theorem stopsAt_isWordChar {text : List Char} (h : startsWithWordChar text = false) :
    StopsAt isWordChar text := by
  cases text with
  | nil => exact fun c hc => by cases hc
  | cons c text => exact stopsAt_cons.mpr h

theorem readMagnitude_delimited {sign text next : List Char} {numeral : String}
    (h : readMagnitude sign text = (.ok numeral, next)) :
    next = text.dropWhile isDigitOrSeparator ∧ ∀ rest, StopsAt isDigitOrSeparator rest →
      readMagnitude sign (text.takeWhile isDigitOrSeparator ++ rest) = (.ok numeral, rest) := by
  have hall : ∀ c ∈ text.takeWhile isDigitOrSeparator, isDigitOrSeparator c := fun c =>
    List.mem_takeWhile_imp
  obtain ⟨hresult, hnext⟩ := Prod.mk.inj h
  refine ⟨hnext.symm, fun rest hrest => ?_⟩
  simp only [readMagnitude, takeWhile_append_of_stopsAt hall hrest,
    dropWhile_append_of_stopsAt hall hrest]
  exact congrArg (·, rest) hresult

/-- Digits and underscores are read up to the first other character. -/
theorem readInteger_delimited {c : Char} {tail next : List Char} {numeral : String}
    (hc : c = '-' ∨ c.isDigit) (h : readInteger (c :: tail) = (.ok numeral, next)) :
    ∃ body, tail = body ++ next ∧ (∀ d ∈ body, isDigitOrSeparator d) ∧
      StopsAt isDigitOrSeparator next ∧ (c = '-' → startsWithDigit body) ∧
      ∀ rest, StopsAt isDigitOrSeparator rest →
        readInteger (c :: (body ++ rest)) = (.ok numeral, rest) := by
  have hall : ∀ d ∈ tail.takeWhile isDigitOrSeparator, isDigitOrSeparator d := fun d =>
    List.mem_takeWhile_imp
  have hstop := stopsAt_dropWhile isDigitOrSeparator tail
  refine ⟨tail.takeWhile isDigitOrSeparator, ?_⟩
  by_cases hsign : c = '-'
  · subst hsign
    rw [readInteger] at h
    split at h
    · rename_i hdigit
      obtain ⟨rfl, hread⟩ := readMagnitude_delimited h
      have hbody : startsWithDigit (tail.takeWhile isDigitOrSeparator) := by
        cases tail with
        | nil => cases hdigit
        | cons d tail =>
          have hd : d.isDigit := hdigit
          rw [List.takeWhile_cons_of_pos (by simp [isDigitOrSeparator, hd])]
          exact hd
      refine ⟨List.takeWhile_append_dropWhile.symm, hall, hstop, fun _ => hbody, ?_⟩
      intro rest hrest
      rw [readInteger, if_pos (startsWithDigit_append hbody rest)]
      exact hread rest hrest
    · cases h
  · have hdigit : isDigitOrSeparator c := by
      simp [isDigitOrSeparator, hc.resolve_left hsign]
    have hunsigned (rest : List Char) : readInteger (c :: rest) = readMagnitude [] (c :: rest) := by
      rw [readInteger]
      rintro _ ⟨⟩
      exact hsign rfl
    rw [hunsigned] at h
    obtain ⟨hnext, hread⟩ := readMagnitude_delimited h
    rw [List.dropWhile_cons_of_pos hdigit] at hnext
    rw [List.takeWhile_cons_of_pos hdigit] at hread
    subst hnext
    refine ⟨List.takeWhile_append_dropWhile.symm, hall, hstop, fun hc => absurd hc hsign, ?_⟩
    intro rest hrest
    rw [hunsigned]
    exact hread rest hrest

theorem isWordChar_of_ofChar? {c : Char} {unit : SizeUnit} (h : SizeUnit.ofChar? c = some unit) :
    isWordChar c := by
  unfold SizeUnit.ofChar? at h
  split at h
  · decide
  · decide
  · decide
  · decide
  · cases h

theorem isWordChar_of_isDigitOrSeparator {c : Char} (h : isDigitOrSeparator c) : isWordChar c := by
  simp only [isDigitOrSeparator, Bool.or_eq_true] at h
  rcases h with h | h
  · simp [isWordChar, Char.isAlphanum, h]
  · simp [isWordChar, h]

theorem isWordChar_of_endsLexeme {c : Char} (h : endsLexeme c) : isWordChar c = false := by
  simpa using (Bool.and_eq_true_iff.mp h).1

theorem isDigitOrSeparator_of_endsLexeme {c : Char} (h : endsLexeme c) :
    isDigitOrSeparator c = false := by
  cases hdigit : isDigitOrSeparator c with
  | false => rfl
  | true =>
    have hword := isWordChar_of_isDigitOrSeparator hdigit
    rw [isWordChar_of_endsLexeme h] at hword
    cases hword

theorem not_blank_of_isWordChar {c : Char} (h : isWordChar c) : isInlineBlank c = false := by
  cases hblank : isInlineBlank c with
  | false => rfl
  | true =>
    simp only [isInlineBlank, Bool.or_eq_true, beq_iff_eq] at hblank
    rcases hblank with (rfl | rfl) | rfl <;> exact absurd h (by decide)

theorem readUnit?_eq_some_iff {text next : List Char} {unit : SizeUnit} :
    readUnit? text = some (unit, next) ↔
      ∃ c, text = c :: next ∧ startsWithWordChar next = false ∧ SizeUnit.ofChar? c = some unit := by
  cases text with
  | nil => simp [readUnit?]
  | cons c text =>
    rw [readUnit?]
    constructor
    · intro h
      split at h
      · cases h
      · rename_i hword
        obtain ⟨_, hunit, heq⟩ := Option.map_eq_some_iff.mp h
        cases heq
        exact ⟨c, rfl, Bool.eq_false_iff.mpr hword, hunit⟩
    · rintro ⟨_, ⟨⟩, hword, hunit⟩
      rw [if_neg (by simp [hword]), hunit]
      rfl

theorem readUnit?_eq_none {text : List Char} (h : StopsAt isWordChar text) :
    readUnit? text = none := by
  apply Option.eq_none_iff_forall_not_mem.mpr
  rintro ⟨unit, next⟩ hunit
  obtain ⟨c, rfl, -, hc⟩ := readUnit?_eq_some_iff.mp hunit
  have hword := isWordChar_of_ofChar? hc
  rw [stopsAt_cons.mp h] at hword
  cases hword

/-- A number is delimited by the first character that belongs to no word. -/
theorem readNumber_delimits {c : Char} {tail next : List Char} {kind : TokenKind}
    (hc : c = '-' ∨ c.isDigit) (h : readNumber (c :: tail) = (.ok kind, next)) :
    ∃ body, tail = body ++ next ∧ (c = '-' → startsWithDigit body) ∧
      Delimits (fun text => readNumber (c :: text)) body next kind := by
  have hend {rest : List Char} (hlike : FollowsLike next rest) (hword : StopsAt isWordChar next) :
      StopsAt isWordChar rest := hlike.stopsAt hword fun _ => isWordChar_of_endsLexeme
  rw [readNumber] at h
  split at h
  · cases h
  · rename_i numeral left hinteger
    obtain ⟨body, rfl, hbody, hstop, hdigit, hread⟩ := readInteger_delimited hc hinteger
    split at h
    · rename_i unit behind hunit
      cases h
      obtain ⟨u, rfl, hword, hu⟩ := readUnit?_eq_some_iff.mp hunit
      refine ⟨body ++ [u], by simp, fun hsign => ?_, fun rest hlike => ?_, ?_⟩
      · exact startsWithDigit_append (hdigit hsign) [u]
      · have hbehind := (hend hlike (stopsAt_isWordChar hword)).startsWithWordChar
        have hletter : StopsAt isDigitOrSeparator (u :: rest) :=
          stopsAt_cons.mpr (stopsAt_cons.mp hstop)
        rw [List.append_assoc, List.singleton_append, readNumber, hread _ hletter]
        simp only [readUnit?_eq_some_iff.mpr ⟨u, rfl, hbehind, hu⟩]
      · simpa using not_blank_of_isWordChar (isWordChar_of_ofChar? hu)
    · split at h
      · cases h
      · rename_i hword
        cases h
        refine ⟨body, rfl, hdigit, fun rest hlike => ?_, fun d hd => ?_⟩
        · have hbehind := hend hlike (stopsAt_isWordChar (Bool.eq_false_iff.mpr hword))
          have hrest : StopsAt isDigitOrSeparator rest :=
            hlike.stopsAt hstop fun _ => isDigitOrSeparator_of_endsLexeme
          rw [readNumber, hread rest hrest]
          simp [readUnit?_eq_none hbehind, hbehind.startsWithWordChar]
        · exact not_blank_of_isWordChar
            (isWordChar_of_isDigitOrSeparator (hbody d (List.mem_of_getLast? hd)))

/-! ## Arrays -/

theorem not_blank_of_skipBlanks_eq {text tail : List Char} {c : Char}
    (h : skipBlanks text = c :: tail) : isInlineBlank c = false := by
  apply stopsAt_dropWhile isInlineBlank text
  rw [← skipBlanks, h, List.head?_cons, Option.mem_def]

/-- Blanks in front of a character are skipped whatever stands behind it. -/
theorem exists_gap {text tail : List Char} {c : Char} (h : skipBlanks text = c :: tail) :
    ∃ gap, text = gap ++ c :: tail ∧ ∀ rest, skipBlanks (gap ++ c :: rest) = c :: rest := by
  refine ⟨text.takeWhile isInlineBlank, ?_, fun rest => ?_⟩
  · rw [← h]
    exact List.takeWhile_append_dropWhile.symm
  · rw [skipBlanks_append fun d => List.mem_takeWhile_imp,
      skipBlanks_cons (not_blank_of_skipBlanks_eq h)]

/-- The class of the next character is that of the first blank or, if there is none, of the
character behind the blanks. -/
theorem StopsAt.of_gap {p : Char → Bool} {gap tail : List Char} {c : Char}
    (h : StopsAt p (gap ++ c :: tail)) (rest : List Char) : StopsAt p (gap ++ c :: rest) := by
  cases gap with
  | nil => exact stopsAt_cons.mpr (stopsAt_cons.mp h)
  | cons d gap => exact stopsAt_cons.mpr (stopsAt_cons.mp h)

theorem stopsAt_of_ne_cons {text : List Char} {d : Char} (h : ∀ tail, text ≠ d :: tail) :
    StopsAt (· == d) text := by
  intro c hc
  cases text with
  | nil => cases hc
  | cons c text =>
    cases hc
    exact beq_eq_false_iff_ne.mpr fun heq => h text (by rw [heq])

theorem readElement_delimited {isFirst : Bool} {text next : List Char} {numeral : String}
    (h : readElement isFirst text = (.ok numeral, next)) :
    ∃ part, text = part ++ next ∧ StopsAt isDigitOrSeparator next ∧
      ∀ rest, StopsAt isDigitOrSeparator rest →
        readElement isFirst (part ++ rest) = (.ok numeral, rest) := by
  rw [readElement] at h
  split at h
  · split at h <;> cases h
  · rename_i c tail hclose hs
    split at h
    · rename_i hc
      obtain ⟨body, rfl, -, hstop, -, hread⟩ := readInteger_delimited hc h
      obtain ⟨gap, rfl, hskip⟩ := exists_gap hs
      refine ⟨gap ++ c :: body, by simp, hstop, fun rest hrest => ?_⟩
      rw [List.append_assoc, List.cons_append, readElement, hskip]
      split
      · rename_i heq
        cases heq
        exact absurd rfl hclose
      · rename_i heq
        cases heq
        rw [if_pos hc]
        exact hread rest hrest
      · rename_i heq
        cases heq
    · cases h
  · cases h

/-- A row is delimited by its closing bracket. -/
theorem readRow_delimited {done row : List String} {text next : List Char}
    (h : readRow done text = (.ok row, next)) :
    ∃ front, text = front ++ ']' :: next ∧
      ∀ rest, readRow done (front ++ ']' :: rest) = (.ok row, rest) := by
  fun_induction readRow done text with
  | case1 => cases h
  | case2 done text numeral tail hr behind hs ih =>
    obtain ⟨part, rfl, hstop, helement⟩ := readElement_delimited hr
    obtain ⟨gap, rfl, hskip⟩ := exists_gap hs
    obtain ⟨front, rfl, hrow⟩ := ih h
    refine ⟨part ++ (gap ++ ',' :: front), by simp, fun rest => ?_⟩
    have hnext := hstop.of_gap (front ++ ']' :: rest)
    rw [List.append_assoc, List.append_assoc, List.cons_append,
      readRow_separator (helement _ hnext) (hskip _), hrow]
  | case3 done text numeral tail hr behind hs =>
    cases h
    obtain ⟨part, rfl, hstop, helement⟩ := readElement_delimited hr
    obtain ⟨gap, rfl, hskip⟩ := exists_gap hs
    refine ⟨part ++ gap, by simp, fun rest => ?_⟩
    rw [List.append_assoc, readRow_close (helement _ (hstop.of_gap rest)) (hskip rest)]
  | case4 => cases h

/-- Rows behind a row are delimited by the first character that opens no further one. -/
theorem readAdjacentRows_delimited {done rows : List (List String)} {text next : List Char}
    (h : readAdjacentRows done text = (.ok rows, next)) :
    ∃ part, text = part ++ next ∧ (part = [] ∨ ∃ front, part = front ++ [']']) ∧
      StopsAt (· == '[') next ∧
      ∀ rest, StopsAt (· == '[') rest →
        readAdjacentRows done (part ++ rest) = (.ok rows, rest) := by
  fun_induction readAdjacentRows done text with
  | case1 => cases h
  | case2 done tail row behind hr ih =>
    obtain ⟨front, rfl, hrow⟩ := readRow_delimited hr
    obtain ⟨part, rfl, hlast, hstop, hrows⟩ := ih h
    refine ⟨'[' :: (front ++ ']' :: part), by simp, ?_, hstop, fun rest hrest => ?_⟩
    · rcases hlast with rfl | ⟨before, rfl⟩
      · exact .inr ⟨'[' :: front, by simp⟩
      · exact .inr ⟨'[' :: (front ++ ']' :: before), by simp⟩
    · rw [List.cons_append, List.append_assoc, List.cons_append, readAdjacentRows_row (hrow _)]
      exact hrows rest hrest
  | case3 done tail hopen =>
    cases h
    have hstop := stopsAt_of_ne_cons hopen
    exact ⟨[], rfl, .inl rfl, hstop, fun rest hrest => readAdjacentRows_stop hrest _⟩

/-- Rows in brackets are delimited by the closing bracket. -/
theorem readListedRows_delimited {done rows : List (List String)} {text next : List Char}
    (h : readListedRows done text = (.ok rows, next)) :
    ∃ front, text = front ++ ']' :: next ∧
      ∀ rest, readListedRows done (front ++ ']' :: rest) = (.ok rows, rest) := by
  fun_induction readListedRows done text with
  | case1 => cases h
  | case2 done text tail hs row behind hr ih =>
    obtain ⟨gap, rfl, hskip⟩ := exists_gap hs
    obtain ⟨inner, rfl, hrow⟩ := readRow_delimited hr
    obtain ⟨front, rfl, hrows⟩ := ih h
    refine ⟨gap ++ '[' :: (inner ++ ']' :: front), by simp, fun rest => ?_⟩
    rw [List.append_assoc, List.cons_append, List.append_assoc, List.cons_append,
      readListedRows_row (hskip _) (hrow _), hrows]
  | case3 => cases h
  | case4 done text tail hs hne ih =>
    obtain ⟨gap, rfl, hskip⟩ := exists_gap hs
    obtain ⟨front, rfl, hrows⟩ := ih h
    refine ⟨gap ++ ',' :: front, by simp, fun rest => ?_⟩
    rw [List.append_assoc, List.cons_append,
      readListedRows_comma (by simpa using hne) (hskip _), hrows]
  | case5 => cases h
  | case6 done text tail hs hne =>
    cases h
    obtain ⟨gap, rfl, hskip⟩ := exists_gap hs
    exact ⟨gap, rfl, fun rest => readListedRows_close (by simpa using hne) (hskip rest)⟩
  | case7 => cases h

theorem closed_bracket (front : List Char) :
    ∀ c ∈ (front ++ [']']).getLast?, isInlineBlank c = false :=
  closed_concat (by decide) front

theorem readArray_delimits_listed {text tail next : List Char} {rows : List (List String)}
    (hs : skipBlanks text = '[' :: tail) (h : readListedRows [] ('[' :: tail) = (.ok rows, next)) :
    ∃ part, text = part ++ next ∧ Delimits readArray part next (.intRows rows) := by
  obtain ⟨gap, rfl, hskip⟩ := exists_gap hs
  obtain ⟨front, hfront, hrows⟩ := readListedRows_delimited h
  cases front with
  | nil => cases hfront
  | cons c front =>
    obtain ⟨rfl, rfl⟩ := List.cons.inj hfront
    refine ⟨gap ++ '[' :: front ++ [']'], by simp, fun rest _ => ?_, closed_bracket _⟩
    have hlisted := hrows rest
    rw [List.cons_append] at hlisted
    rw [List.append_assoc, List.append_assoc, List.cons_append, List.singleton_append]
    unfold readArray
    rw [hskip]
    simp only [hlisted]
    rfl

theorem readArray_delimits_adjacent {text behind next : List Char} {row : List String}
    {rows : List (List String)} (hopen : StopsAt (· == '[') (skipBlanks text))
    (hrow : readRow [] (skipBlanks text) = (.ok row, behind))
    (hread : readAdjacentRows [row] behind = (.ok rows, next)) :
    ∃ part, text = part ++ next ∧ Delimits readArray part next (.ofRows rows) := by
  obtain ⟨inner, hinner, hrows⟩ := readRow_delimited hrow
  obtain ⟨part, rfl, hlast, hstop, hadjacent⟩ := readAdjacentRows_delimited hread
  -- the row is not empty, and its first character is the one that was found behind the blanks
  obtain ⟨c, body, hbody⟩ : ∃ c body, inner ++ [']'] = c :: body :=
    List.exists_cons_of_ne_nil (by simp)
  have hfirst (rest : List Char) : inner ++ ']' :: rest = c :: (body ++ rest) := by
    rw [List.append_cons, hbody, List.cons_append]
  have hs : skipBlanks text = c :: (body ++ (part ++ next)) := by rw [hinner, hfirst]
  have hc : (c == '[') = false := hopen c (by rw [hs, List.head?_cons, Option.mem_def])
  obtain ⟨gap, rfl, hskip⟩ := exists_gap hs
  refine ⟨gap ++ c :: body ++ part, by simp, fun rest hlike => ?_, ?_⟩
  · have hrest : StopsAt (· == '[') rest := hlike.stopsAt hstop fun d hd => by
      simpa using (Bool.and_eq_true_iff.mp hd).2
    have hrow := hrows (part ++ rest)
    rw [hfirst] at hrow
    rw [List.append_assoc, List.append_assoc, List.cons_append,
      readArray_of_row (hskip _) (beq_eq_false_iff_ne.mp hc) hrow, hadjacent rest hrest]
    rfl
  · rw [← hbody]
    rcases hlast with rfl | ⟨front, rfl⟩
    · rw [List.append_nil, ← List.append_assoc]
      exact closed_bracket _
    · rw [← List.append_assoc]
      exact closed_bracket _

/-- An array is delimited by its last bracket, and one that is written row by row by the first
character behind it that opens no further row. -/
theorem readArray_delimits {text next : List Char} {kind : TokenKind}
    (h : readArray text = (.ok kind, next)) :
    ∃ part, text = part ++ next ∧ Delimits readArray part next kind := by
  unfold readArray at h
  split at h
  · rename_i tail hs
    obtain ⟨rows, hread, rfl⟩ := Reading.map_eq_ok_iff.mp h
    exact readArray_delimits_listed hs hread
  · rename_i hopen
    split at h
    · cases h
    · rename_i row behind hrow
      obtain ⟨rows, hread, rfl⟩ := Reading.map_eq_ok_iff.mp h
      exact readArray_delimits_adjacent (stopsAt_of_ne_cons hopen) hrow hread

/-! ## Lexemes -/

theorem readString_delimits {text next : List Char} {kind : TokenKind}
    (h : readString text = (.ok kind, next)) :
    ∃ part, text = part ++ next ∧ Delimits readString part next kind := by
  obtain ⟨content, hread, rfl⟩ := Reading.map_eq_ok_iff.mp h
  obtain ⟨_, hcontent, rfl, rfl⟩ := readContent_sound hread
  refine ⟨content ++ ['"'], by simp, fun rest _ => ?_, ?_⟩
  · rw [List.append_assoc, List.singleton_append, readString, readContent_complete hcontent]
    rfl
  · exact closed_concat (by decide) content

theorem readWord_delimits {first : Char} {text next : List Char} {kind : TokenKind}
    (h : readWord first text = (.ok kind, next)) :
    ∃ part, text = part ++ next ∧ Delimits (readWord first) part next kind := by
  have hall : ∀ c ∈ text.takeWhile isWordChar, isWordChar c := fun c => List.mem_takeWhile_imp
  cases h
  refine ⟨_, List.takeWhile_append_dropWhile.symm, fun rest hlike => ?_, fun c hc => ?_⟩
  · have hstop := hlike.stopsAt (stopsAt_dropWhile isWordChar text) fun _ =>
      isWordChar_of_endsLexeme
    rw [readWord, takeWhile_append_of_stopsAt hall hstop, dropWhile_append_of_stopsAt hall hstop]
  · exact not_blank_of_isWordChar (hall c (List.mem_of_getLast? hc))

/-- A token is delimited by its own characters. -/
theorem readLexeme_delimits {first : Char} {text next : List Char} {kind : TokenKind}
    (h : readLexeme first text = (.ok kind, next)) :
    ∃ part, text = part ++ next ∧ Delimits (readLexeme first) part next kind := by
  by_cases hquote : first = '"'
  · have heq : readLexeme first = readString := by
      funext text
      rw [readLexeme, if_pos hquote]
    rw [heq] at h ⊢
    exact readString_delimits h
  · by_cases hopen : first = '['
    · have heq : readLexeme first = readArray := by
        funext text
        rw [readLexeme, if_neg hquote, if_pos hopen]
      rw [heq] at h ⊢
      exact readArray_delimits h
    · have heq (text : List Char) : readLexeme first text =
          if first.isDigit ∨ first = '-' ∧ startsWithDigit text then readNumber (first :: text)
          else if isWordStart first then readWord first text
          else (.error .unexpectedCharacter, text) := by
        rw [readLexeme, if_neg hquote, if_neg hopen]
      rw [heq] at h
      split at h
      · rename_i hnumeral
        have hstart : first = '-' ∨ first.isDigit := hnumeral.elim .inr fun h => .inl h.1
        obtain ⟨part, rfl, hdigit, hreads, hclosed⟩ := readNumber_delimits hstart h
        refine ⟨part, rfl, fun rest hlike => ?_, hclosed⟩
        have hagain : first.isDigit ∨ first = '-' ∧ startsWithDigit (part ++ rest) :=
          hnumeral.imp_right fun hsign => ⟨hsign.1, startsWithDigit_append (hdigit hsign.1) rest⟩
        rw [heq, if_pos hagain]
        exact hreads rest hlike
      · rename_i hnumeral
        split at h
        · rename_i hstart
          obtain ⟨part, rfl, hreads, hclosed⟩ := readWord_delimits h
          refine ⟨part, rfl, fun rest hlike => ?_, hclosed⟩
          have hagain : ¬ (first.isDigit ∨ first = '-' ∧ startsWithDigit (part ++ rest)) := by
            rintro (hdigit | ⟨rfl, -⟩)
            · rw [not_isDigit_of_isWordStart hstart] at hdigit
              cases hdigit
            · exact absurd hstart (by decide)
          rw [heq, if_neg hagain, if_pos hstart]
          exact hreads rest hlike
        · cases h

/-- No token begins like a comment. -/
theorem not_opensComment_of_readLexeme {first : Char} {text next : List Char} {kind : TokenKind}
    (h : readLexeme first text = (.ok kind, next)) (other : List Char) :
    ¬ opensComment first other := by
  have hunexpected (c : Char) (hc : c = '#' ∨ c = '/') :
      readLexeme c text = (.error .unexpectedCharacter, text) := by
    rcases hc with rfl | rfl
    · rfl
    · rfl
  intro hcomment
  simp only [opensComment, Bool.or_eq_true, Bool.and_eq_true, beq_iff_eq] at hcomment
  rw [hunexpected first (hcomment.imp_right And.left)] at h
  cases h

end ResourceDecl
