import ResourceDecl.Token.Number

/-!
# Integer arrays

A row is a bracketed list of integers with commas between them. An array is one row, or several
rows written one directly behind the other, or a bracketed list of rows; the last two give rows of
rows. Blanks may stand inside brackets, and commas behind the rows of a bracketed list.

* `readRow`: reads the elements of a row and its closing bracket.
* `readAdjacentRows`, `readListedRows`: read the rows of the two forms of an array of arrays.
* `readArray`: reads an array of any form.
-/

namespace ResourceDecl

/-- Read one element of a row; a row may not close before its first element. -/
def readElement (isFirst : Bool) (rest : List Char) : Reading String :=
  match skipBlanks rest with
  | ']' :: tail =>
    if isFirst then (.error .emptyArray, tail) else (.error .elementExpected, ']' :: tail)
  | c :: tail =>
    if c = '-' ∨ c.isDigit then readInteger (c :: tail) else (.error .elementExpected, c :: tail)
  | [] => (.error .elementExpected, [])

theorem length_readElement_le (isFirst : Bool) (rest : List Char) :
    (readElement isFirst rest).2.length ≤ rest.length := by
  have hs := length_skipBlanks_le rest
  rw [readElement]
  split
  · rename_i tail heq
    rw [heq, List.length_cons] at hs
    split
    · exact Nat.le_of_succ_le hs
    · exact hs
  · rename_i c tail _ heq
    rw [heq] at hs
    split
    · rename_i hc
      exact Nat.le_of_lt (Nat.lt_of_lt_of_le (length_readInteger_lt hc) hs)
    · exact hs
  · exact Nat.zero_le _

/-- Read the elements of a row whose bracket was read; `done` holds the elements so far. -/
def readRow (done : List String) (rest : List Char) : Reading (List String) :=
  match _hr : readElement done.isEmpty rest with
  | (.error fault, tail) => (.error fault, tail)
  | (.ok numeral, tail) =>
    match _hs : skipBlanks tail with
    | ',' :: next => readRow (done ++ [numeral]) next
    | ']' :: next => (.ok (done ++ [numeral]), next)
    | next => (.error .separatorExpected, next)
termination_by rest.length
decreasing_by
  have hr := length_readElement_le done.isEmpty rest
  have hs := length_skipBlanks_le tail
  rw [_hr] at hr
  rw [_hs, List.length_cons] at hs
  exact Nat.lt_of_succ_le (Nat.le_trans hs hr)

theorem length_readRow_le (done : List String) (rest : List Char) :
    (readRow done rest).2.length ≤ rest.length := by
  fun_induction readRow done rest with
  | case1 done rest fault tail hr => simpa [hr] using length_readElement_le done.isEmpty rest
  | case2 done rest numeral tail hr next hs ih =>
    have h₁ := length_readElement_le done.isEmpty rest
    have h₂ := length_skipBlanks_le tail
    simp only [hr, hs, List.length_cons] at h₁ h₂
    omega
  | case3 done rest numeral tail hr next hs =>
    have h₁ := length_readElement_le done.isEmpty rest
    have h₂ := length_skipBlanks_le tail
    simp only [hr, hs, List.length_cons] at h₁ h₂ ⊢
    omega
  | case4 done rest numeral tail hr =>
    have h₁ := length_readElement_le done.isEmpty rest
    rw [hr] at h₁
    exact Nat.le_trans (length_skipBlanks_le tail) h₁

/-- Read the rows that follow directly behind the rows in `done`. -/
def readAdjacentRows (done : List (List String)) (rest : List Char) :
    Reading (List (List String)) :=
  match rest with
  | '[' :: tail =>
    match _hr : readRow [] tail with
    | (.error fault, next) => (.error fault, next)
    | (.ok row, next) => readAdjacentRows (done ++ [row]) next
  | tail => (.ok done, tail)
termination_by rest.length
decreasing_by
  have hr := length_readRow_le [] tail
  rw [_hr] at hr
  exact Nat.lt_succ_of_le hr

/-- Read the rows of a bracketed list whose bracket was read; `done` holds the rows so far. -/
def readListedRows (done : List (List String)) (rest : List Char) :
    Reading (List (List String)) :=
  match _hs : skipBlanks rest with
  | '[' :: tail =>
    match _hr : readRow [] tail with
    | (.error fault, next) => (.error fault, next)
    | (.ok row, next) => readListedRows (done ++ [row]) next
  | ',' :: tail =>
    if done.isEmpty then (.error .bracketExpected, ',' :: tail) else readListedRows done tail
  | ']' :: tail =>
    if done.isEmpty then (.error .bracketExpected, ']' :: tail) else (.ok done, tail)
  | tail => (.error .bracketExpected, tail)
termination_by rest.length
decreasing_by
  · have hs := length_skipBlanks_le rest
    have hr := length_readRow_le [] tail
    rw [_hs, List.length_cons] at hs
    rw [_hr] at hr
    exact Nat.lt_of_le_of_lt hr hs
  · have hs := length_skipBlanks_le rest
    rw [_hs, List.length_cons] at hs
    exact hs

/-- The token of rows that were written one behind the other. -/
def TokenKind.ofRows : List (List String) → TokenKind
  | [row] => .intArray row
  | rows => .intRows rows

/-- Read an array whose first bracket was read. -/
def readArray (rest : List Char) : Reading TokenKind :=
  match skipBlanks rest with
  | '[' :: tail => (readListedRows [] ('[' :: tail)).map .intRows
  | tail =>
    match readRow [] tail with
    | (.error fault, next) => (.error fault, next)
    | (.ok row, next) => (readAdjacentRows [row] next).map .ofRows

/-! ## Readers go forward -/

theorem length_readAdjacentRows_le (done : List (List String)) (rest : List Char) :
    (readAdjacentRows done rest).2.length ≤ rest.length := by
  fun_induction readAdjacentRows done rest with
  | case1 done tail fault next hr =>
    have h := length_readRow_le [] tail
    simp only [hr, List.length_cons] at h ⊢
    omega
  | case2 done tail row next hr ih =>
    have h := length_readRow_le [] tail
    simp only [hr, List.length_cons] at h ⊢
    omega
  | case3 => exact Nat.le_refl _

theorem length_readListedRows_le (done : List (List String)) (rest : List Char) :
    (readListedRows done rest).2.length ≤ rest.length := by
  fun_induction readListedRows done rest with
  | case1 done rest tail hs fault next hr =>
    have h₁ := length_skipBlanks_le rest
    have h₂ := length_readRow_le [] tail
    simp only [hs, hr, List.length_cons] at h₁ h₂ ⊢
    omega
  | case2 done rest tail hs row next hr ih =>
    have h₁ := length_skipBlanks_le rest
    have h₂ := length_readRow_le [] tail
    simp only [hs, hr, List.length_cons] at h₁ h₂
    omega
  | case3 done rest tail hs _ => simpa [hs] using length_skipBlanks_le rest
  | case4 done rest tail hs _ ih =>
    have h := length_skipBlanks_le rest
    simp only [hs, List.length_cons] at h
    omega
  | case5 done rest tail hs _ => simpa [hs] using length_skipBlanks_le rest
  | case6 done rest tail hs _ =>
    have h := length_skipBlanks_le rest
    simp only [hs, List.length_cons] at h
    exact Nat.le_of_succ_le h
  | case7 done rest => exact length_skipBlanks_le rest

theorem length_readArray_le (rest : List Char) : (readArray rest).2.length ≤ rest.length := by
  have hs := length_skipBlanks_le rest
  rw [readArray]
  split
  · rename_i tail heq
    rw [heq] at hs
    exact Nat.le_trans (length_readListedRows_le [] _) hs
  · have hr := length_readRow_le [] (skipBlanks rest)
    split
    · rename_i heq
      rw [heq] at hr
      exact Nat.le_trans hr hs
    · rename_i row next heq
      rw [heq] at hr
      exact Nat.le_trans (length_readAdjacentRows_le [row] next) (Nat.le_trans hr hs)

/-! ## Equations

The steps of the loops, without the equalities that make them end. -/

theorem readRow_eq (done : List String) (rest : List Char) :
    readRow done rest =
      match readElement done.isEmpty rest with
      | (.error fault, tail) => (.error fault, tail)
      | (.ok numeral, tail) =>
        match skipBlanks tail with
        | ',' :: next => readRow (done ++ [numeral]) next
        | ']' :: next => (.ok (done ++ [numeral]), next)
        | next => (.error .separatorExpected, next) := by
  rw [readRow]
  split
  · rename_i heq
    simp only [heq]
  · rename_i heq
    simp only [heq]
    split <;> rename_i heq <;> simp only [heq]

theorem readAdjacentRows_eq (done : List (List String)) (rest : List Char) :
    readAdjacentRows done rest =
      match rest with
      | '[' :: tail =>
        match readRow [] tail with
        | (.error fault, next) => (.error fault, next)
        | (.ok row, next) => readAdjacentRows (done ++ [row]) next
      | tail => (.ok done, tail) := by
  rw [readAdjacentRows.eq_def]
  split
  · split <;> rename_i heq <;> simp only [heq]
  · rfl

theorem readListedRows_eq (done : List (List String)) (rest : List Char) :
    readListedRows done rest =
      match skipBlanks rest with
      | '[' :: tail =>
        match readRow [] tail with
        | (.error fault, next) => (.error fault, next)
        | (.ok row, next) => readListedRows (done ++ [row]) next
      | ',' :: tail =>
        if done.isEmpty then (.error .bracketExpected, ',' :: tail) else readListedRows done tail
      | ']' :: tail =>
        if done.isEmpty then (.error .bracketExpected, ']' :: tail) else (.ok done, tail)
      | tail => (.error .bracketExpected, tail) := by
  rw [readListedRows]
  split <;> rename_i heq <;> simp only [heq]
  split <;> rename_i heq <;> simp only [heq]

end ResourceDecl
