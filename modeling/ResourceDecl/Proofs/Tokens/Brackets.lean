import ResourceDecl.Proofs.Tokens.Literals

/-!
# Literals of arrays

An array is written in one of three forms: a row, rows one directly behind the other, or rows in
brackets of their own. Blanks may stand inside brackets. Between the rows in brackets, and behind
the last of them, commas may stand; how many is left to a `CommaRule`, and the rest of the grammar
does not depend on it.

* `RowLiteral`, `AdjacentRows`, `BracketedRows`, `ArrayLiteral`: the grammar, with the texts of the
  integers.
* `readArray_complete`, `arrayLiteral_of_readArray`: the reader of arrays takes the literals in
  which any number of commas stands behind a row, and nothing else.
-/

namespace ResourceDecl

open Text

/-! ## The grammar -/

/-- Blanks that may stand inside brackets. -/
def Blanks (gap : List Char) : Prop :=
  ∀ c ∈ gap, isInlineBlank c

theorem blanks_nil : Blanks [] :=
  List.forall_mem_nil _

/-- The text is an integer. -/
def IsNumeral (text : List Char) : Prop :=
  ∃ n, Numeral text n

/-- The integers of a row behind its first bracket, and the bracket that closes it. -/
inductive RowBehind : List Char → List (List Char) → Prop
  | last {before element after : List Char} :
      Blanks before → IsNumeral element → Blanks after →
        RowBehind (before ++ (element ++ (after ++ [']']))) [element]
  | more {before element after text : List Char} {elements : List (List Char)} :
      Blanks before → IsNumeral element → Blanks after → RowBehind text elements →
        RowBehind (before ++ (element ++ (after ++ ',' :: text))) (element :: elements)

/-- A row and its integers. -/
inductive RowLiteral : List Char → List (List Char) → Prop
  | brackets {text : List Char} {elements : List (List Char)} :
      RowBehind text elements → RowLiteral ('[' :: text) elements

/-- Rows one directly behind the other. -/
inductive AdjacentRows : List Char → List (List (List Char)) → Prop
  | nil : AdjacentRows [] []
  | cons {row text : List Char} {elements : List (List Char)} {rows : List (List (List Char))} :
      RowLiteral row elements → AdjacentRows text rows →
        AdjacentRows (row ++ text) (elements :: rows)

/-- How many commas may stand behind a row in brackets: in front of another row, and in front of
the bracket that closes the list. -/
structure CommaRule where
  between : Nat → Prop
  behind : Nat → Prop

/-- At most one comma between two rows, and none behind the last one. -/
def CommaRule.separating : CommaRule :=
  ⟨(· ≤ 1), (· = 0)⟩

/-- Any number of commas behind a row. -/
def CommaRule.any : CommaRule :=
  ⟨fun _ => True, fun _ => True⟩

/-- Blanks with commas among them. -/
def Gap (gap : List Char) : Prop :=
  ∀ c ∈ gap, isInlineBlank c ∨ c = ','

/-- What stands behind a row in brackets, the bracket that closes the list included. -/
inductive ListBehind (rule : CommaRule) : List Char → List (List (List Char)) → Prop
  | close {gap : List Char} :
      Gap gap → rule.behind (gap.count ',') → ListBehind rule (gap ++ [']']) []
  | row {gap row text : List Char} {elements : List (List Char)}
      {rows : List (List (List Char))} :
      Gap gap → rule.between (gap.count ',') → RowLiteral row elements → ListBehind rule text rows →
        ListBehind rule (gap ++ (row ++ text)) (elements :: rows)

/-- Rows in brackets. -/
inductive BracketedRows (rule : CommaRule) : List Char → List (List (List Char)) → Prop
  | brackets {before row text : List Char} {elements : List (List Char)}
      {rows : List (List (List Char))} :
      Blanks before → RowLiteral row elements → ListBehind rule text rows →
        BracketedRows rule ('[' :: (before ++ (row ++ text))) (elements :: rows)

/-- An array and the token that is made of it. -/
inductive ArrayLiteral (rule : CommaRule) : List Char → TokenKind → Prop
  | row {text : List Char} {elements : List (List Char)} :
      RowLiteral text elements → ArrayLiteral rule text (.intArray (elements.map unseparated))
  | adjacent {text : List Char} {rows : List (List (List Char))} :
      AdjacentRows text rows → 2 ≤ rows.length →
        ArrayLiteral rule text (.intRows (rows.map (List.map unseparated)))
  | bracketed {text : List Char} {rows : List (List (List Char))} :
      BracketedRows rule text rows →
        ArrayLiteral rule text (.intRows (rows.map (List.map unseparated)))

/-! ## Rules that allow more commas -/

theorem ListBehind.any {rule : CommaRule} {text : List Char} {rows : List (List (List Char))}
    (h : ListBehind rule text rows) : ListBehind .any text rows := by
  induction h with
  | close hgap _ => exact .close hgap trivial
  | row hgap _ hrow _ ih => exact .row hgap trivial hrow ih

theorem ArrayLiteral.any {rule : CommaRule} {text : List Char} {kind : TokenKind}
    (h : ArrayLiteral rule text kind) : ArrayLiteral .any text kind := by
  cases h with
  | row hrow => exact .row hrow
  | adjacent hrows hmany => exact .adjacent hrows hmany
  | bracketed hrows =>
    cases hrows with
    | brackets hbefore hrow hbehind => exact .bracketed (.brackets hbefore hrow hbehind.any)

/-! ## Rows are read -/

theorem skipBlanks_append_cons {gap : List Char} (hgap : Blanks gap) {c : Char}
    (hc : isInlineBlank c = false) (rest : List Char) :
    skipBlanks (gap ++ c :: rest) = c :: rest := by
  rw [skipBlanks_append hgap, skipBlanks_cons hc]

/-- Blanks and the character behind them are no part of an integer. -/
theorem stopsAt_blanks {p : Char → Bool} {gap : List Char} (hgap : Blanks gap) {c : Char}
    (hc : p c = false) (hblank : ∀ d, isInlineBlank d → p d = false) (rest : List Char) :
    StopsAt p (gap ++ c :: rest) := by
  cases gap with
  | nil => exact stopsAt_cons.mpr hc
  | cons d gap => exact stopsAt_cons.mpr (hblank d (hgap d List.mem_cons_self))

theorem isDigitOrSeparator_of_blank {c : Char} (h : isInlineBlank c) :
    isDigitOrSeparator c = false := by
  simp only [isInlineBlank, Bool.or_eq_true, beq_iff_eq] at h
  rcases h with (rfl | rfl) | rfl <;> rfl

theorem readElement_complete {before element rest : List Char} (isFirst : Bool)
    (hbefore : Blanks before) (helement : IsNumeral element)
    (hrest : StopsAt isDigitOrSeparator rest) :
    readElement isFirst (before ++ (element ++ rest)) = (.ok (unseparated element), rest) := by
  obtain ⟨n, hn⟩ := helement
  obtain ⟨first, tail, rfl, hstart⟩ := hn.exists_cons
  have hclose : first ≠ ']' := (hstart []).ne (by decide) (by decide)
  have hnumeral : first = '-' ∨ first.isDigit := (hstart []).elim .inr fun h => .inl h.1
  have hread := readInteger_complete hn hrest
  rw [List.cons_append] at hread ⊢
  rw [readElement, skipBlanks_append_cons hbefore (hstart []).not_blank]
  split
  · rename_i heq
    cases heq
    exact absurd rfl hclose
  · rename_i heq
    cases heq
    rw [if_pos hnumeral, hread]
  · rename_i heq
    cases heq

theorem readRow_complete {text : List Char} {elements : List (List Char)}
    (h : RowBehind text elements) (done : List String) (rest : List Char) :
    readRow done (text ++ rest) = (.ok (done ++ elements.map unseparated), rest) := by
  have hstop {gap : List Char} (hgap : Blanks gap) {c : Char} (hc : isDigitOrSeparator c = false)
      (rest : List Char) : StopsAt isDigitOrSeparator (gap ++ c :: rest) :=
    stopsAt_blanks hgap hc (fun _ => isDigitOrSeparator_of_blank) rest
  induction h generalizing done with
  | last hbefore helement hafter =>
    simp only [List.append_assoc, List.singleton_append]
    rw [readRow_close (readElement_complete _ hbefore helement (hstop hafter rfl rest))
      (skipBlanks_append_cons hafter rfl rest)]
    rfl
  | more hbefore helement hafter _ ih =>
    simp only [List.append_assoc, List.cons_append]
    rw [readRow_separator (readElement_complete _ hbefore helement (hstop hafter rfl _))
      (skipBlanks_append_cons hafter rfl _), ih]
    simp

theorem readAdjacentRows_complete {text : List Char} {rows : List (List (List Char))}
    (h : AdjacentRows text rows) (done : List (List String)) {rest : List Char}
    (hrest : StopsAt (· == '[') rest) :
    readAdjacentRows done (text ++ rest) =
      (.ok (done ++ rows.map (List.map unseparated)), rest) := by
  induction h generalizing done with
  | nil => simpa using readAdjacentRows_stop hrest done
  | cons hrow _ ih =>
    cases hrow with
    | brackets hbehind =>
      rw [List.append_assoc, List.cons_append,
        readAdjacentRows_row (readRow_complete hbehind [] _), ih]
      simp

/-! ## Rows in brackets are read -/

/-- The reader of rows in brackets looks behind the blanks only. -/
theorem readListedRows_congr {done : List (List String)} {text other : List Char}
    (h : skipBlanks text = skipBlanks other) :
    readListedRows done text = readListedRows done other := by
  rw [readListedRows.eq_def done text, readListedRows.eq_def done other, h]

/-- Behind a row, blanks and commas are skipped. -/
theorem readListedRows_gap {done : List (List String)} (hne : done ≠ []) {gap : List Char}
    (hgap : Gap gap) (rest : List Char) :
    readListedRows done (gap ++ rest) = readListedRows done rest := by
  induction gap with
  | nil => rfl
  | cons c gap ih =>
    obtain ⟨hc, hgap⟩ := List.forall_mem_cons.mp hgap
    rw [List.cons_append, ← ih hgap]
    rcases hc with hblank | rfl
    · exact readListedRows_congr (List.dropWhile_cons_of_pos hblank)
    · exact readListedRows_comma hne (skipBlanks_cons rfl _)

theorem readListedRows_complete {text : List Char} {rows : List (List (List Char))}
    (h : ListBehind .any text rows) {done : List (List String)} (hne : done ≠ [])
    (rest : List Char) :
    readListedRows done (text ++ rest) =
      (.ok (done ++ rows.map (List.map unseparated)), rest) := by
  induction h generalizing done with
  | close hgap _ =>
    rw [List.append_assoc, List.singleton_append, readListedRows_gap hne hgap,
      readListedRows_close hne (skipBlanks_cons rfl rest)]
    simp
  | row hgap _ hrow _ ih =>
    cases hrow with
    | brackets hbehind =>
      rw [List.append_assoc, List.append_assoc, List.cons_append, readListedRows_gap hne hgap,
        readListedRows_row (skipBlanks_cons rfl _) (readRow_complete hbehind [] _), ih (by simp)]
      simp

/-! ## Arrays are read -/

/-- A row has an integer first, which no bracket begins, and blanks in front of it. -/
theorem RowBehind.exists_first {text : List Char} {elements : List (List Char)}
    (h : RowBehind text elements) :
    ∃ before first tail, text = before ++ first :: tail ∧ Blanks before ∧
      isInlineBlank first = false ∧ first ≠ '[' ∧ RowBehind (first :: tail) elements := by
  cases h with
  | @last before element after hbefore helement hafter =>
    have hrow := RowBehind.last blanks_nil helement hafter
    obtain ⟨n, hn⟩ := helement
    obtain ⟨first, tail, rfl, hstart⟩ := hn.exists_cons
    exact ⟨before, first, _, rfl, hbefore, (hstart []).not_blank,
      (hstart []).ne (by decide) (by decide), hrow⟩
  | @more before element after text elements hbefore helement hafter hmore =>
    have hrow := RowBehind.more blanks_nil helement hafter hmore
    obtain ⟨n, hn⟩ := helement
    obtain ⟨first, tail, rfl, hstart⟩ := hn.exists_cons
    exact ⟨before, first, _, rfl, hbefore, (hstart []).not_blank,
      (hstart []).ne (by decide) (by decide), hrow⟩

/-- A row that is written directly is read together with the rows behind it. -/
theorem readArray_adjacent {text behind : List Char} {elements : List (List Char)}
    {rows : List (List (List Char))} (hrow : RowBehind text elements)
    (hrows : AdjacentRows behind rows) {rest : List Char} (hrest : StopsAt (· == '[') rest) :
    readArray (text ++ (behind ++ rest)) =
      (.ok (.ofRows ((elements :: rows).map (List.map unseparated))), rest) := by
  obtain ⟨before, first, tail, rfl, hbefore, hblank, hopen, hfirst⟩ := hrow.exists_first
  have hread := readRow_complete hfirst [] (behind ++ rest)
  rw [List.cons_append] at hread
  rw [List.append_assoc, List.cons_append,
    readArray_of_row (skipBlanks_append_cons hbefore hblank _) hopen hread,
    readAdjacentRows_complete hrows _ hrest]
  rfl

/-- The reader of arrays takes an array literal in front of anything that goes on with no further
row. -/
theorem readArray_complete {text : List Char} {kind : TokenKind}
    (h : ArrayLiteral .any ('[' :: text) kind) {rest : List Char}
    (hrest : StopsAt (· == '[') rest) : readArray (text ++ rest) = (.ok kind, rest) := by
  generalize hwhole : '[' :: text = whole at h
  cases h with
  | row hrow =>
    cases hrow with
    | brackets hbehind =>
      cases hwhole
      simpa [TokenKind.ofRows] using readArray_adjacent hbehind .nil hrest
  | adjacent hrows hmany =>
    cases hrows with
    | nil => cases hwhole
    | cons hrow hrows =>
      cases hrow with
      | brackets hbehind =>
        obtain rfl : text = _ ++ _ := (List.cons.inj hwhole).2
        rw [List.append_assoc, readArray_adjacent hbehind hrows hrest]
        cases hrows with
        | nil => simp at hmany
        | cons => rfl
  | bracketed hrows =>
    cases hrows with
    | @brackets before row behind elements rows hbefore hrow hbehind =>
      cases hrow with
      | @brackets inner _ hinner =>
        cases hwhole
        have hread : readListedRows [] ('[' :: (inner ++ (behind ++ rest))) =
            (.ok ([elements.map unseparated] ++ rows.map (List.map unseparated)), rest) := by
          rw [readListedRows_row (skipBlanks_cons rfl _) (readRow_complete hinner [] _)]
          exact readListedRows_complete hbehind (List.cons_ne_nil _ _) rest
        rw [List.append_assoc, List.append_assoc, List.cons_append, readArray,
          skipBlanks_append_cons hbefore rfl]
        simp only [hread]
        rfl

/-! ## What is read is an array -/

/-- A text is blanks and what stands behind them. -/
theorem exists_blanks {text rest : List Char} (h : skipBlanks text = rest) :
    ∃ gap, text = gap ++ rest ∧ Blanks gap := by
  refine ⟨text.takeWhile isInlineBlank, ?_, fun d => List.mem_takeWhile_imp⟩
  rw [← h]
  exact List.takeWhile_append_dropWhile.symm

theorem numeral_of_readElement {isFirst : Bool} {text next : List Char} {numeral : String}
    (h : readElement isFirst text = (.ok numeral, next)) :
    ∃ before element, text = before ++ (element ++ next) ∧ Blanks before ∧ IsNumeral element ∧
      numeral = unseparated element := by
  rw [readElement] at h
  split at h
  · split at h <;> cases h
  · rename_i c tail _ hs
    split at h
    · rename_i hc
      obtain ⟨before, rfl, hbefore⟩ := exists_blanks hs
      obtain ⟨element, n, helement, hn, rfl, -⟩ := readInteger_sound hc h
      exact ⟨before, element, by rw [helement], hbefore, ⟨n, hn⟩, rfl⟩
    · cases h
  · cases h

theorem rowBehind_of_readRow {done row : List String} {text next : List Char}
    (h : readRow done text = (.ok row, next)) :
    ∃ inner elements, text = inner ++ next ∧ RowBehind inner elements ∧
      row = done ++ elements.map unseparated := by
  fun_induction readRow done text with
  | case1 => cases h
  | case2 done text numeral tail hr behind hs ih =>
    obtain ⟨before, element, rfl, hbefore, helement, rfl⟩ := numeral_of_readElement hr
    obtain ⟨after, rfl, hafter⟩ := exists_blanks hs
    obtain ⟨inner, elements, rfl, hinner, rfl⟩ := ih h
    exact ⟨_, _, by simp, .more hbefore helement hafter hinner, by simp⟩
  | case3 done text numeral tail hr behind hs =>
    cases h
    obtain ⟨before, element, rfl, hbefore, helement, rfl⟩ := numeral_of_readElement hr
    obtain ⟨after, rfl, hafter⟩ := exists_blanks hs
    exact ⟨_, _, by simp, .last hbefore helement hafter, rfl⟩
  | case4 => cases h

theorem adjacentRows_of_read {done rows : List (List String)} {text next : List Char}
    (h : readAdjacentRows done text = (.ok rows, next)) :
    ∃ part more, text = part ++ next ∧ AdjacentRows part more ∧
      rows = done ++ more.map (List.map unseparated) ∧ StopsAt (· == '[') next := by
  fun_induction readAdjacentRows done text with
  | case1 => cases h
  | case2 done tail row behind hr ih =>
    obtain ⟨inner, elements, rfl, hinner, rfl⟩ := rowBehind_of_readRow hr
    obtain ⟨part, more, rfl, hpart, rfl, hstop⟩ := ih h
    exact ⟨'[' :: inner ++ part, elements :: more, by simp, .cons (.brackets hinner) hpart,
      by simp, hstop⟩
  | case3 done text hopen =>
    cases h
    exact ⟨[], [], rfl, .nil, by simp, stopsAt_of_ne_cons hopen⟩

/-- A gap may go on in front of what stands behind a row. -/
theorem ListBehind.gap {text gap : List Char} {rows : List (List (List Char))} (hgap : Gap gap)
    (h : ListBehind .any text rows) : ListBehind .any (gap ++ text) rows := by
  have happend {more : List Char} (hmore : Gap more) : Gap (gap ++ more) :=
    List.forall_mem_append.mpr ⟨hgap, hmore⟩
  cases h with
  | close hmore _ =>
    rw [← List.append_assoc]
    exact .close (happend hmore) trivial
  | row hmore _ hrow hbehind =>
    rw [← List.append_assoc]
    exact .row (happend hmore) trivial hrow hbehind

theorem Blanks.gap {gap : List Char} (h : Blanks gap) : Gap gap :=
  fun c hc => .inl (h c hc)

theorem listBehind_of_read {done rows : List (List String)} {text next : List Char}
    (h : readListedRows done text = (.ok rows, next)) (hne : done ≠ []) :
    ∃ part more, text = part ++ next ∧ ListBehind .any part more ∧
      rows = done ++ more.map (List.map unseparated) := by
  fun_induction readListedRows done text with
  | case1 => cases h
  | case2 done text tail hs row behind hr ih =>
    obtain ⟨gap, rfl, hgap⟩ := exists_blanks hs
    obtain ⟨inner, elements, rfl, hinner, rfl⟩ := rowBehind_of_readRow hr
    obtain ⟨part, more, rfl, hpart, rfl⟩ := ih h (by simp)
    exact ⟨gap ++ ('[' :: inner ++ part), elements :: more, by simp,
      .row hgap.gap trivial (.brackets hinner) hpart, by simp⟩
  | case3 => cases h
  | case4 done text tail hs hempty ih =>
    obtain ⟨gap, rfl, hgap⟩ := exists_blanks hs
    obtain ⟨part, more, rfl, hpart, rfl⟩ := ih h hne
    refine ⟨gap ++ ',' :: part, more, by simp, ?_, rfl⟩
    have hcomma : Gap (gap ++ [',']) := List.forall_mem_append.mpr ⟨hgap.gap, by simp⟩
    simpa using hpart.gap hcomma
  | case5 => cases h
  | case6 done text tail hs hempty =>
    cases h
    obtain ⟨gap, rfl, hgap⟩ := exists_blanks hs
    exact ⟨gap ++ [']'], [], by simp, .close hgap.gap trivial, by simp⟩
  | case7 => cases h

/-- Blanks may stand in front of the first integer of a row. -/
theorem RowBehind.blanks {gap text : List Char} {elements : List (List Char)} (hgap : Blanks gap)
    (h : RowBehind text elements) : RowBehind (gap ++ text) elements := by
  have happend {more : List Char} (hmore : Blanks more) : Blanks (gap ++ more) :=
    List.forall_mem_append.mpr ⟨hgap, hmore⟩
  cases h with
  | last hbefore helement hafter =>
    rw [← List.append_assoc]
    exact .last (happend hbefore) helement hafter
  | more hbefore helement hafter hmore =>
    rw [← List.append_assoc]
    exact .more (happend hbefore) helement hafter hmore

theorem readListedRows_fault {done : List (List String)} {fault : LexFault}
    {text tail next : List Char} (hs : skipBlanks text = '[' :: tail)
    (hr : readRow [] tail = (.error fault, next)) :
    readListedRows done text = (.error fault, next) := by
  simp only [readListedRows_eq done text, hs, hr]

/-- Rows in brackets begin with a row. -/
theorem readListedRows_open {tail next : List Char} {rows : List (List String)}
    (h : readListedRows [] ('[' :: tail) = (.ok rows, next)) :
    ∃ row behind, readRow [] tail = (.ok row, behind) ∧
      readListedRows [row] behind = (.ok rows, next) := by
  have hs : skipBlanks ('[' :: tail) = '[' :: tail := skipBlanks_cons rfl tail
  rcases hr : readRow [] tail with ⟨fault | row, behind⟩
  · rw [readListedRows_fault hs hr] at h
    cases h
  · rw [readListedRows_row hs hr] at h
    exact ⟨row, behind, rfl, h⟩

/-- What the reader of arrays takes is an array literal. -/
theorem arrayLiteral_of_readArray {text next : List Char} {kind : TokenKind}
    (h : readArray text = (.ok kind, next)) :
    ∃ part, text = part ++ next ∧ ArrayLiteral .any ('[' :: part) kind := by
  unfold readArray at h
  split at h
  · rename_i tail hs
    obtain ⟨rows, hread, rfl⟩ := Reading.map_eq_ok_iff.mp h
    obtain ⟨gap, rfl, hgap⟩ := exists_blanks hs
    obtain ⟨row, behind, hrow, hrows⟩ := readListedRows_open hread
    obtain ⟨inner, elements, rfl, hinner, rfl⟩ := rowBehind_of_readRow hrow
    obtain ⟨part, more, rfl, hpart, rfl⟩ := listBehind_of_read hrows (List.cons_ne_nil _ _)
    exact ⟨gap ++ ('[' :: inner ++ part), by simp,
      .bracketed (.brackets hgap (.brackets hinner) hpart)⟩
  · split at h
    · cases h
    · rename_i row behind hrow
      obtain ⟨rows, hread, rfl⟩ := Reading.map_eq_ok_iff.mp h
      obtain ⟨inner, elements, hskip, hinner, rfl⟩ := rowBehind_of_readRow hrow
      obtain ⟨part, more, rfl, hpart, rfl, -⟩ := adjacentRows_of_read hread
      obtain ⟨gap, rfl, hgap⟩ := exists_blanks hskip
      have hfirst : RowLiteral ('[' :: (gap ++ inner)) elements := .brackets (hinner.blanks hgap)
      refine ⟨gap ++ inner ++ part, by simp, ?_⟩
      cases more with
      | nil =>
        cases hpart
        rw [List.append_nil]
        exact .row hfirst
      | cons second more =>
        exact .adjacent (AdjacentRows.cons hfirst hpart) (by simp)

end ResourceDecl
