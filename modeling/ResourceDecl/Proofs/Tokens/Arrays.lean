import ResourceDecl.Proofs.Tokens.Numerals
import ResourceDecl.Statement.Printer
import ResourceDecl.Token.Array

/-!
# Printed arrays read back

A row is printed without blanks, and rows are printed one behind the other in brackets of their
own. Both forms are read as what was printed (`readArray_row`, `readArray_rows`), and nothing
behind the closing bracket of a single row may be a bracket, since further rows would follow.

The reader never gives an array without elements: `readArray_sound`.
-/

namespace ResourceDecl

open Text

/-! ## Rows -/

theorem readElement_toString (isFirst : Bool) (n : Int) {rest : List Char}
    (hrest : StopsAt isDigitOrSeparator rest) :
    readElement isFirst ((toString n).toList ++ rest) = (.ok (toString n), rest) := by
  obtain ⟨first, tail, hcons, hstart⟩ := exists_toString_eq_cons n
  have hclose : first ≠ ']' := (hstart []).ne (by decide) (by decide)
  have hnumeral : first = '-' ∨ first.isDigit := (hstart []).elim .inr fun h => .inl h.1
  have hread := readInteger_toString n hrest
  rw [hcons, List.cons_append] at hread ⊢
  rw [readElement, skipBlanks_cons (hstart []).not_blank]
  split
  · rename_i heq
    cases heq
    exact absurd rfl hclose
  · rename_i heq
    cases heq
    rw [if_pos hnumeral, hread]
  · rename_i heq
    cases heq

theorem readRow_separator {done : List String} {text tail next : List Char} {numeral : String}
    (he : readElement done.isEmpty text = (.ok numeral, tail))
    (hs : skipBlanks tail = ',' :: next) :
    readRow done text = readRow (done ++ [numeral]) next := by
  simp only [readRow_eq done text, he, hs]

theorem readRow_close {done : List String} {text tail next : List Char} {numeral : String}
    (he : readElement done.isEmpty text = (.ok numeral, tail))
    (hs : skipBlanks tail = ']' :: next) :
    readRow done text = (.ok (done ++ [numeral]), next) := by
  simp only [readRow_eq done text, he, hs]

/-- The text of a row behind its first bracket. -/
def rowBody (values : List Int) : List Char :=
  (String.intercalate "," (values.map toString)).toList ++ [']']

theorem toList_printRow (values : List Int) : (printRow values).toList = '[' :: rowBody values := by
  simp [printRow, rowBody]

theorem rowBody_singleton (n : Int) : rowBody [n] = (toString n).toList ++ [']'] := by
  simp [rowBody]

theorem rowBody_cons_cons (n m : Int) (values : List Int) :
    rowBody (n :: m :: values) = (toString n).toList ++ ',' :: rowBody (m :: values) := by
  simp [rowBody]

theorem not_mem_printRow (values : List Int) : '\n' ∉ (printRow values).toList := by
  have hbody (values : List Int) : '\n' ∉ rowBody values := by
    induction values with
    | nil => decide
    | cons n values ih =>
      have hn := not_mem_toString (c := '\n') (by decide) (by decide) n
      cases values with
      | nil => simpa [rowBody_singleton] using hn
      | cons m values => simpa [rowBody_cons_cons] using ⟨hn, ih⟩
  rw [toList_printRow]
  simpa using hbody values

theorem readRow_rowBody {values : List Int} (hne : values ≠ []) (done : List String)
    (rest : List Char) :
    readRow done (rowBody values ++ rest) = (.ok (done ++ values.map toString), rest) := by
  induction values generalizing done with
  | nil => exact absurd rfl hne
  | cons n values ih =>
    cases values with
    | nil =>
      have hstop : StopsAt isDigitOrSeparator (']' :: rest) := stopsAt_cons.mpr (by decide)
      rw [rowBody_singleton, List.append_assoc, List.singleton_append,
        readRow_close (readElement_toString _ n hstop) (skipBlanks_cons (by decide) rest)]
      rfl
    | cons m values =>
      have hstop (text : List Char) : StopsAt isDigitOrSeparator (',' :: text) :=
        stopsAt_cons.mpr (by decide)
      rw [rowBody_cons_cons, List.append_assoc, List.cons_append,
        readRow_separator (readElement_toString _ n (hstop _)) (skipBlanks_cons (by decide) _),
        ih (by simp)]
      simp

theorem toList_join_printRow (row : List Int) (rows : List (List Int)) :
    (String.join ((row :: rows).map printRow)).toList =
      '[' :: (rowBody row ++ (String.join (rows.map printRow)).toList) := by
  rw [List.map_cons, String.join_cons, String.toList_append, toList_printRow, List.cons_append]

theorem readRow_ne_nil {done row : List String} {text rest : List Char}
    (h : readRow done text = (.ok row, rest)) : row ≠ [] := by
  fun_induction readRow done text with
  | case1 => cases h
  | case2 _ _ _ _ _ _ _ ih => exact ih h
  | case3 =>
    cases h
    simp
  | case4 => cases h

/-! ## Arrays -/

theorem readAdjacentRows_row {done : List (List String)} {row : List String}
    {tail next : List Char} (hr : readRow [] tail = (.ok row, next)) :
    readAdjacentRows done ('[' :: tail) = readAdjacentRows (done ++ [row]) next := by
  simp only [readAdjacentRows_eq done ('[' :: tail), hr]

theorem readAdjacentRows_stop {rest : List Char} (h : StopsAt (· == '[') rest)
    (done : List (List String)) : readAdjacentRows done rest = (.ok done, rest) := by
  cases rest with
  | nil => simp [readAdjacentRows]
  | cons c rest =>
    have hc : c ≠ '[' := by simpa using stopsAt_cons.mp h
    simp [readAdjacentRows, hc]

/-- An array that does not open with two brackets is read row by row. -/
theorem readArray_of_row {text tail next : List Char} {row : List String} {c : Char}
    (hs : skipBlanks text = c :: tail) (hc : c ≠ '[')
    (hr : readRow [] (c :: tail) = (.ok row, next)) :
    readArray text = (readAdjacentRows [row] next).map .ofRows := by
  unfold readArray
  rw [hs]
  split
  · rename_i heq
    cases heq
    exact absurd rfl hc
  · rw [hr]

/-- A single row in front of anything but a further row. -/
theorem readArray_row {values : List Int} (hne : values ≠ []) {rest : List Char}
    (hrest : StopsAt (· == '[') rest) :
    readArray (rowBody values ++ rest) = (.ok (.intArray (values.map toString)), rest) := by
  obtain ⟨first, tail, hcons, hblank, hopen⟩ : ∃ first tail, rowBody values = first :: tail ∧
      isInlineBlank first = false ∧ first ≠ '[' := by
    match values, hne with
    | [n], _ =>
      obtain ⟨first, tail, hcons, hstart⟩ := exists_toString_eq_cons n
      refine ⟨first, tail ++ [']'], ?_, (hstart []).not_blank, ?_⟩
      · rw [rowBody_singleton, hcons, List.cons_append]
      · exact (hstart []).ne (by decide) (by decide)
    | n :: m :: values, _ =>
      obtain ⟨first, tail, hcons, hstart⟩ := exists_toString_eq_cons n
      refine ⟨first, tail ++ ',' :: rowBody (m :: values), ?_, (hstart []).not_blank, ?_⟩
      · rw [rowBody_cons_cons, hcons, List.cons_append]
      · exact (hstart []).ne (by decide) (by decide)
  have hread := readRow_rowBody hne [] rest
  rw [hcons, List.cons_append] at hread ⊢
  rw [readArray_of_row (skipBlanks_cons hblank _) hopen hread, readAdjacentRows_stop hrest]
  rfl

theorem readListedRows_row {done : List (List String)} {row : List String}
    {text tail next : List Char} (hs : skipBlanks text = '[' :: tail)
    (hr : readRow [] tail = (.ok row, next)) :
    readListedRows done text = readListedRows (done ++ [row]) next := by
  simp only [readListedRows_eq done text, hs, hr]

theorem readListedRows_close {done : List (List String)} {text next : List Char}
    (hne : done ≠ []) (hs : skipBlanks text = ']' :: next) :
    readListedRows done text = (.ok done, next) := by
  simp only [readListedRows_eq done text, hs, List.isEmpty_eq_false_iff.mpr hne]
  rfl

theorem readListedRows_comma {done : List (List String)} {text next : List Char}
    (hne : done ≠ []) (hs : skipBlanks text = ',' :: next) :
    readListedRows done text = readListedRows done next := by
  simp only [readListedRows_eq done text, hs, List.isEmpty_eq_false_iff.mpr hne]
  rfl

theorem readListedRows_printed {rows : List (List Int)} (hrows : ∀ row ∈ rows, row ≠ [])
    {done : List (List String)} (hne : done ≠ [] ∨ rows ≠ []) (rest : List Char) :
    readListedRows done ((String.join (rows.map printRow)).toList ++ ']' :: rest) =
      (.ok (done ++ rows.map (List.map toString)), rest) := by
  induction rows generalizing done with
  | nil =>
    have hdone : done ≠ [] := hne.elim id fun h => absurd rfl h
    rw [List.map_nil, String.join_nil, String.toList_empty, List.nil_append,
      readListedRows_close hdone (skipBlanks_cons (by decide) rest), List.map_nil, List.append_nil]
  | cons row rows ih =>
    obtain ⟨hrow, hrows⟩ := List.forall_mem_cons.mp hrows
    rw [toList_join_printRow, List.cons_append, List.append_assoc,
      readListedRows_row (skipBlanks_cons (by decide) _) (readRow_rowBody hrow [] _),
      ih hrows (.inl (by simp))]
    simp

/-- Rows in brackets of their own. -/
theorem readArray_rows {rows : List (List Int)} (hne : rows ≠ []) (hrows : ∀ row ∈ rows, row ≠ [])
    (rest : List Char) :
    readArray ((String.join (rows.map printRow)).toList ++ ']' :: rest) =
      (.ok (.intRows (rows.map (List.map toString))), rest) := by
  have hread : readListedRows [] ((String.join (rows.map printRow)).toList ++ ']' :: rest) =
      (.ok (rows.map (List.map toString)), rest) :=
    readListedRows_printed hrows (.inr hne) rest
  cases rows with
  | nil => exact absurd rfl hne
  | cons row rows =>
    rw [toList_join_printRow, List.cons_append] at hread ⊢
    rw [readArray]
    simp only [skipBlanks_cons (c := '[') (by decide), hread]
    rfl

/-! ## No array is empty -/

theorem readAdjacentRows_sound {done rows : List (List String)} {text rest : List Char}
    (h : readAdjacentRows done text = (.ok rows, rest)) (hne : done ≠ [])
    (hdone : ∀ row ∈ done, row ≠ []) : rows ≠ [] ∧ ∀ row ∈ rows, row ≠ [] := by
  fun_induction readAdjacentRows done text with
  | case1 => cases h
  | case2 done tail row next hr ih =>
    refine ih h (by simp) ?_
    simpa [or_imp, forall_and] using And.intro hdone (readRow_ne_nil hr)
  | case3 =>
    cases h
    exact ⟨hne, hdone⟩

theorem readListedRows_sound {done rows : List (List String)} {text rest : List Char}
    (h : readListedRows done text = (.ok rows, rest)) (hdone : ∀ row ∈ done, row ≠ []) :
    rows ≠ [] ∧ ∀ row ∈ rows, row ≠ [] := by
  fun_induction readListedRows done text with
  | case1 => cases h
  | case2 done rest tail hs row next hr ih =>
    refine ih h ?_
    simpa [or_imp, forall_and] using And.intro hdone (readRow_ne_nil hr)
  | case3 => cases h
  | case4 done rest tail hs hne ih => exact ih h hdone
  | case5 => cases h
  | case6 done rest tail hs hne =>
    cases h
    exact ⟨by simpa using hne, hdone⟩
  | case7 => cases h

/-- An array that was read has elements, and so have its rows. -/
theorem readArray_sound {text rest : List Char} {kind : TokenKind}
    (h : readArray text = (.ok kind, rest)) :
    (∃ numerals, kind = .intArray numerals ∧ numerals ≠ []) ∨
      ∃ rows, kind = .intRows rows ∧ rows ≠ [] ∧ ∀ row ∈ rows, row ≠ [] := by
  unfold readArray at h
  split at h
  · obtain ⟨rows, hread, rfl⟩ := Reading.map_eq_ok_iff.mp h
    exact .inr ⟨rows, rfl, readListedRows_sound hread (by simp)⟩
  · split at h
    · cases h
    · rename_i row next hrow
      obtain ⟨rows, hread, rfl⟩ := Reading.map_eq_ok_iff.mp h
      obtain ⟨hne, hrows⟩ := readAdjacentRows_sound hread (List.cons_ne_nil _ _)
        (by simpa using readRow_ne_nil hrow)
      unfold TokenKind.ofRows
      split
      · exact .inl ⟨_, rfl, hrows _ List.mem_cons_self⟩
      · exact .inr ⟨_, rfl, hne, hrows⟩

end ResourceDecl
