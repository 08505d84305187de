import ResourceDecl.Proofs.Places.Texts
import ResourceDecl.Proofs.Statements.Problems

/-!
# Integers of any size

A literal may denote any integer, and a field has room for 64 bits. The value of a text is said
here without a bound (`FieldClass.Denotes`); a field that takes the token of the text gets just
that value, or the token is refused because an integer in it does not fit
(`FieldClass.value?_exact`).

* `FieldValue.integers`: the integers in a value.
* `FieldClass.Denotes`, `FieldClass.Means`: the value of a text, and that of a token.
* `Literal.eq_of_integers`: a text stands for one token with integers at most.
-/

namespace ResourceDecl

open Text

/-! ## Values without a bound -/

/-- The integers in a value. -/
def FieldValue.integers : FieldValue → List Int
  | int n => [n]
  | size ⟨n, _⟩ => [n]
  | intArray ns => ns
  | intRows rows => rows.flatten
  | _ => []

namespace FieldClass

/-- The field takes tokens for the integers in them. -/
def takesIntegers : FieldClass → Bool
  | int | size | time => true
  | _ => false

/-- The value that the text has as a field of the class, whatever the size of its integers. -/
inductive Denotes : FieldClass → List Char → FieldValue → Prop
  | int {text : List Char} {n : Int} : Numeral text n → Denotes .int text (.int n)
  | tiles {text : List Char} {n : Int} : Numeral text n → Denotes .size text (.size ⟨n, none⟩)
  | size {text : List Char} {n : Int} {c : Char} {unit : SizeUnit} :
      Numeral text n → c ∈ unit.letters →
        Denotes .size (text ++ [c]) (.size ⟨n, some unit⟩)
  | time {text : List Char} {n : Int} : Numeral text n → Denotes .time text (.int n)
  | times {text : List Char} {elements : List (List Char)} {ns : List Int} :
      RowLiteral text elements → List.Forall₂ Numeral elements ns →
        Denotes .time text (.intArray ns)
  | adjacentTimes {text : List Char} {rows : List (List (List Char))} {values : List (List Int)} :
      AdjacentRows text rows → 2 ≤ rows.length → List.Forall₂ (List.Forall₂ Numeral) rows values →
        Denotes .time text (.intRows values)
  | bracketedTimes {text : List Char} {rows : List (List (List Char))} {values : List (List Int)} :
      BracketedRows .any text rows → List.Forall₂ (List.Forall₂ Numeral) rows values →
        Denotes .time text (.intRows values)

/-- The numeral, as a token keeps it, denotes the integer. -/
def Keeps (numeral : String) (n : Int) : Prop :=
  readSigned numeral.toList = some n

/-- The value that the token has as a field of the class, whatever the size of its integers. -/
inductive Means : FieldClass → TokenKind → FieldValue → Prop
  | int {numeral : String} {n : Int} : Keeps numeral n → Means .int (.int numeral) (.int n)
  | tiles {numeral : String} {n : Int} :
      Keeps numeral n → Means .size (.int numeral) (.size ⟨n, none⟩)
  | size {numeral : String} {n : Int} (unit : SizeUnit) :
      Keeps numeral n → Means .size (.size numeral unit) (.size ⟨n, some unit⟩)
  | time {numeral : String} {n : Int} : Keeps numeral n → Means .time (.int numeral) (.int n)
  | times {numerals : List String} {ns : List Int} :
      List.Forall₂ Keeps numerals ns → Means .time (.intArray numerals) (.intArray ns)
  | timeRows {rows : List (List String)} {values : List (List Int)} :
      List.Forall₂ (List.Forall₂ Keeps) rows values → Means .time (.intRows rows) (.intRows values)

/-! ## One value for each token -/

theorem rightUnique_keeps : Relator.RightUnique Keeps := by
  intro numeral n m hn hm
  exact Option.some.inj (hn.symm.trans hm)

theorem Means.unique {accepts : FieldClass} {kind : TokenKind} {v w : FieldValue}
    (hv : accepts.Means kind v) (hw : accepts.Means kind w) : v = w := by
  cases hv with
  | int hn =>
    cases hw with
    | int hm => rw [rightUnique_keeps hn hm]
  | tiles hn =>
    cases hw with
    | tiles hm => rw [rightUnique_keeps hn hm]
  | size unit hn =>
    cases hw with
    | size _ hm => rw [rightUnique_keeps hn hm]
  | time hn =>
    cases hw with
    | time hm => rw [rightUnique_keeps hn hm]
  | times hn =>
    cases hw with
    | times hm => rw [rightUnique_keeps.forall₂ hn hm]
  | timeRows hn =>
    cases hw with
    | timeRows hm => rw [rightUnique_keeps.forall₂.forall₂ hn hm]

theorem keeps_unseparated {text : List Char} {n : Int} (h : Numeral text n) :
    Keeps (unseparated text) n :=
  h.readSigned_eq

theorem forall₂_keeps {elements : List (List Char)} {ns : List Int}
    (h : List.Forall₂ Numeral elements ns) : List.Forall₂ Keeps (elements.map unseparated) ns :=
  List.forall₂_map_left_iff.mpr (h.imp fun _ _ => keeps_unseparated)

theorem forall₂_forall₂_keeps {rows : List (List (List Char))} {values : List (List Int)}
    (h : List.Forall₂ (List.Forall₂ Numeral) rows values) :
    List.Forall₂ (List.Forall₂ Keeps) (rows.map (List.map unseparated)) values :=
  List.forall₂_map_left_iff.mpr (h.imp fun _ _ => forall₂_keeps)

/-- A text with a value stands for a token that has the same value. -/
theorem Denotes.exists_means {accepts : FieldClass} {text : List Char} {value : FieldValue}
    (h : accepts.Denotes text value) : ∃ kind, Literal text kind ∧ accepts.Means kind value := by
  cases h with
  | int hn => exact ⟨_, .number (.int hn), .int (keeps_unseparated hn)⟩
  | tiles hn => exact ⟨_, .number (.int hn), .tiles (keeps_unseparated hn)⟩
  | size hn hc => exact ⟨_, .number (.size hn hc), .size _ (keeps_unseparated hn)⟩
  | time hn => exact ⟨_, .number (.int hn), .time (keeps_unseparated hn)⟩
  | times hrow hns => exact ⟨_, .array (.row hrow), .times (forall₂_keeps hns)⟩
  | adjacentTimes hrows hmany hvalues =>
    exact ⟨_, .array (.adjacent hrows hmany), .timeRows (forall₂_forall₂_keeps hvalues)⟩
  | bracketedTimes hrows hvalues =>
    exact ⟨_, .array (.bracketed hrows), .timeRows (forall₂_forall₂_keeps hvalues)⟩

end FieldClass

/-! ## One token for each text -/

theorem NumberLiteral.exists_numeral {text : List Char} {kind : TokenKind}
    (h : NumberLiteral text kind) :
    ∃ first tail, text = first :: tail ∧ StartsNumeral first tail := by
  cases h with
  | int hn =>
    obtain ⟨first, tail, rfl, hstart⟩ := hn.exists_cons
    exact ⟨first, tail, rfl, by simpa using hstart []⟩
  | @size _ _ c _ hn =>
    obtain ⟨first, tail, rfl, hstart⟩ := hn.exists_cons
    exact ⟨first, tail ++ [c], rfl, hstart [c]⟩

theorem RowLiteral.exists_cons {text : List Char} {elements : List (List Char)}
    (h : RowLiteral text elements) : ∃ tail, text = '[' :: tail := by
  cases h
  exact ⟨_, rfl⟩

theorem ArrayLiteral.exists_cons {rule : CommaRule} {text : List Char} {kind : TokenKind}
    (h : ArrayLiteral rule text kind) : ∃ tail, text = '[' :: tail := by
  cases h with
  | row hrow => exact hrow.exists_cons
  | adjacent hrows hmany =>
    cases hrows with
    | nil => simp at hmany
    | cons hrow _ =>
      obtain ⟨tail, rfl⟩ := hrow.exists_cons
      exact ⟨_, rfl⟩
  | bracketed hrows =>
    cases hrows
    exact ⟨_, rfl⟩

/-- The integers of a row can be read off. -/
theorem RowLiteral.exists_integers {text : List Char} {elements : List (List Char)}
    (h : RowLiteral text elements) : ∃ ns, List.Forall₂ Numeral elements ns := by
  cases h with
  | brackets hbehind =>
    induction hbehind with
    | last _ helement _ =>
      obtain ⟨n, hn⟩ := helement
      exact ⟨[n], .cons hn .nil⟩
    | more _ helement _ _ ih =>
      obtain ⟨n, hn⟩ := helement
      obtain ⟨ns, hns⟩ := ih
      exact ⟨n :: ns, .cons hn hns⟩

theorem AdjacentRows.exists_integers {text : List Char} {rows : List (List (List Char))}
    (h : AdjacentRows text rows) : ∃ values, List.Forall₂ (List.Forall₂ Numeral) rows values := by
  induction h with
  | nil => exact ⟨[], .nil⟩
  | cons hrow _ ih =>
    obtain ⟨ns, hns⟩ := hrow.exists_integers
    obtain ⟨values, hvalues⟩ := ih
    exact ⟨ns :: values, .cons hns hvalues⟩

theorem ListBehind.exists_integers {rule : CommaRule} {text : List Char}
    {rows : List (List (List Char))} (h : ListBehind rule text rows) :
    ∃ values, List.Forall₂ (List.Forall₂ Numeral) rows values := by
  induction h with
  | close => exact ⟨[], .nil⟩
  | row _ _ hrow _ ih =>
    obtain ⟨ns, hns⟩ := hrow.exists_integers
    obtain ⟨values, hvalues⟩ := ih
    exact ⟨ns :: values, .cons hns hvalues⟩

theorem BracketedRows.exists_integers {rule : CommaRule} {text : List Char}
    {rows : List (List (List Char))} (h : BracketedRows rule text rows) :
    ∃ values, List.Forall₂ (List.Forall₂ Numeral) rows values := by
  cases h with
  | brackets _ hrow hbehind =>
    obtain ⟨ns, hns⟩ := hrow.exists_integers
    obtain ⟨values, hvalues⟩ := hbehind.exists_integers
    exact ⟨ns :: values, .cons hns hvalues⟩

/-- The readers of numbers and of arrays find one token in a text. -/
theorem Literal.eq_of_integers {text : List Char} {a b : TokenKind} (ha : Literal text a)
    (hb : Literal text b) (hakind : a.isNumber ∨ a.isArray) (hbkind : b.isNumber ∨ b.isArray) :
    a = b := by
  rcases ha.integers_cases hakind with ha | ha <;> rcases hb.integers_cases hbkind with hb | hb
  · have hread := readNumber_complete ha (stopsAt_nil _)
    rw [readNumber_complete hb (stopsAt_nil _)] at hread
    exact (Except.ok.inj (Prod.mk.inj hread).1).symm
  · obtain ⟨first, tail, rfl, hstart⟩ := ha.exists_numeral
    obtain ⟨other, heq⟩ := hb.exists_cons
    exact absurd (List.cons.inj heq).1 (hstart.ne (by decide) (by decide))
  · obtain ⟨first, tail, rfl, hstart⟩ := hb.exists_numeral
    obtain ⟨other, heq⟩ := ha.exists_cons
    exact absurd (List.cons.inj heq).1 (hstart.ne (by decide) (by decide))
  · obtain ⟨tail, rfl⟩ := ha.exists_cons
    have hread := readArray_complete ha (stopsAt_nil _)
    rw [readArray_complete hb (stopsAt_nil _)] at hread
    exact (Except.ok.inj (Prod.mk.inj hread).1).symm

/-! ## Values that fit -/

/-- Each item of one list has a partner in the other one. -/
theorem exists_partner {α β : Type} {R : α → β → Prop} {xs : List α} {ys : List β}
    (h : List.Forall₂ R xs ys) : (∀ x ∈ xs, ∃ y ∈ ys, R x y) ∧ ∀ y ∈ ys, ∃ x ∈ xs, R x y := by
  induction h with
  | nil => simp
  | @cons x y xs ys hxy _ ih =>
    obtain ⟨hleft, hright⟩ := ih
    refine ⟨List.forall_mem_cons.mpr ⟨⟨y, List.mem_cons_self, hxy⟩, fun a ha => ?_⟩,
      List.forall_mem_cons.mpr ⟨⟨x, List.mem_cons_self, hxy⟩, fun b hb => ?_⟩⟩
    · obtain ⟨b, hb, hab⟩ := hleft a ha
      exact ⟨b, List.mem_cons_of_mem _ hb, hab⟩
    · obtain ⟨a, ha, hab⟩ := hright b hb
      exact ⟨a, List.mem_cons_of_mem _ ha, hab⟩

theorem readInt64_eq_some_iff {numeral : String} {n : Int} :
    readInt64 numeral = some n ↔ FieldClass.Keeps numeral n ∧ FitsInt64 n := by
  rw [readInt64, Option.filter_eq_some_iff, decide_eq_true_iff]
  rfl

theorem not_fits_of_intOf {numeral : String} {n : Int} {cause : Cause}
    (h : intOf numeral = .error cause) (hn : FieldClass.Keeps numeral n) : ¬ FitsInt64 n := by
  intro hfits
  have hread := intOf_eq_ok_iff.mpr (readInt64_eq_some_iff.mpr ⟨hn, hfits⟩)
  rw [h] at hread
  cases hread

namespace FieldClass

variable {accepts : FieldClass} {kind : TokenKind} {value : FieldValue}

/-- What a field takes is the value of the token, and its integers fit. -/
theorem Accepts.means (hclass : accepts.takesIntegers) (h : accepts.Accepts kind value) :
    accepts.Means kind value ∧ ∀ n ∈ value.integers, FitsInt64 n := by
  have hrow {numerals : List String} {ns : List Int}
      (h : List.Forall₂ (fun numeral n => readInt64 numeral = some n) numerals ns) :
      List.Forall₂ Keeps numerals ns ∧ ∀ n ∈ ns, FitsInt64 n := by
    refine ⟨h.imp fun _ _ hn => (readInt64_eq_some_iff.mp hn).1, fun n hn => ?_⟩
    obtain ⟨numeral, -, hread⟩ := (exists_partner h).2 n hn
    exact (readInt64_eq_some_iff.mp hread).2
  cases h with
  | int hn =>
    obtain ⟨hkeeps, hfits⟩ := readInt64_eq_some_iff.mp hn
    exact ⟨.int hkeeps, List.forall_mem_singleton.mpr hfits⟩
  | tiles hn =>
    obtain ⟨hkeeps, hfits⟩ := readInt64_eq_some_iff.mp hn
    exact ⟨.tiles hkeeps, List.forall_mem_singleton.mpr hfits⟩
  | size unit hn =>
    obtain ⟨hkeeps, hfits⟩ := readInt64_eq_some_iff.mp hn
    exact ⟨.size unit hkeeps, List.forall_mem_singleton.mpr hfits⟩
  | time hn =>
    obtain ⟨hkeeps, hfits⟩ := readInt64_eq_some_iff.mp hn
    exact ⟨.time hkeeps, List.forall_mem_singleton.mpr hfits⟩
  | times hns =>
    obtain ⟨hkeeps, hfits⟩ := hrow hns
    exact ⟨.times hkeeps, hfits⟩
  | timeRows hvalues =>
    refine ⟨.timeRows (hvalues.imp fun _ _ hns => (hrow hns).1), fun n hn => ?_⟩
    obtain ⟨ns, hns, hn⟩ := List.mem_flatten.mp hn
    obtain ⟨numerals, -, hread⟩ := (exists_partner hvalues).2 ns hns
    exact (hrow hread).2 n hn
  | ident | reference | str | quotedReference | sortKey | choice => cases hclass

/-- A token is refused for an integer in it that does not fit. -/
theorem Means.unfit_of_error {cause : Cause} (hmeans : accepts.Means kind value)
    (h : accepts.value? kind = .error cause) :
    ∃ numeral n, n ∈ value.integers ∧ ¬ FitsInt64 n ∧ Keeps numeral n ∧
      cause = .overflow numeral := by
  have hone {numeral : String} {n : Int} {f : Int → Option FieldValue} (hn : Keeps numeral n)
      (h : (intOf numeral >>= fun value => pure (f value)) = .error cause) :
      ¬ FitsInt64 n ∧ Keeps numeral n ∧ cause = .overflow numeral := by
    rcases bind_eq_error_iff.mp h with h | ⟨_, _, h⟩
    · exact ⟨not_fits_of_intOf h hn, hn, intOf_error h⟩
    · cases h
  have hrow {numerals : List String} {ns : List Int} (hns : List.Forall₂ Keeps numerals ns)
      (h : numerals.mapM intOf = .error cause) :
      ∃ numeral n, n ∈ ns ∧ ¬ FitsInt64 n ∧ Keeps numeral n ∧ cause = .overflow numeral := by
    obtain ⟨numeral, hm, herror⟩ := mapM_eq_error h
    obtain ⟨n, hn, hkeeps⟩ := (exists_partner hns).1 numeral hm
    exact ⟨numeral, n, hn, not_fits_of_intOf herror hkeeps, hkeeps, intOf_error herror⟩
  cases hmeans with
  | int hn => exact ⟨_, _, List.mem_singleton_self _, hone hn h⟩
  | tiles hn => exact ⟨_, _, List.mem_singleton_self _, hone hn h⟩
  | size unit hn => exact ⟨_, _, List.mem_singleton_self _, hone hn h⟩
  | time hn => exact ⟨_, _, List.mem_singleton_self _, hone hn h⟩
  | times hns =>
    rcases bind_eq_error_iff.mp h with h | ⟨_, _, h⟩
    · exact hrow hns h
    · cases h
  | timeRows hvalues =>
    rcases bind_eq_error_iff.mp h with h | ⟨_, _, h⟩
    · obtain ⟨numerals, hm, herror⟩ := mapM_eq_error h
      obtain ⟨ns, hns, hkeeps⟩ := (exists_partner hvalues).1 numerals hm
      obtain ⟨numeral, n, hn, hcause⟩ := hrow hkeeps herror
      exact ⟨numeral, n, List.mem_flatten.mpr ⟨ns, hns, hn⟩, hcause⟩
    · cases h

/-- The text of a token that a field takes for its integers has a value. -/
theorem exists_denotes {text : List Char} (hclass : accepts.takesIntegers)
    (hliteral : Literal text kind) (htakes : accepts.value? kind ≠ .ok none) :
    ∃ value, accepts.Denotes text value := by
  cases accepts with
  | int =>
    cases kind with
    | int =>
      cases hliteral.number_of_isNumber rfl with
      | int hn => exact ⟨_, .int hn⟩
    | _ => exact absurd rfl htakes
  | size =>
    cases kind with
    | int =>
      cases hliteral.number_of_isNumber rfl with
      | int hn => exact ⟨_, .tiles hn⟩
    | size =>
      cases hliteral.number_of_isNumber rfl with
      | size hn hc => exact ⟨_, .size hn hc⟩
    | _ => exact absurd rfl htakes
  | time =>
    cases kind with
    | int =>
      cases hliteral.number_of_isNumber rfl with
      | int hn => exact ⟨_, .time hn⟩
    | intArray =>
      cases hliteral.array_of_isArray rfl with
      | row hrow =>
        obtain ⟨ns, hns⟩ := hrow.exists_integers
        exact ⟨_, .times hrow hns⟩
    | intRows =>
      cases hliteral.array_of_isArray rfl with
      | adjacent hrows hmany =>
        obtain ⟨values, hvalues⟩ := hrows.exists_integers
        exact ⟨_, .adjacentTimes hrows hmany hvalues⟩
      | bracketed hrows =>
        obtain ⟨values, hvalues⟩ := hrows.exists_integers
        exact ⟨_, .bracketedTimes hrows hvalues⟩
    | _ => exact absurd rfl htakes
  | _ => cases hclass

/-- A field that takes a token for its integers has the value of the text, if all integers in it
fit 64 bits; if one of them does not, the token is refused for such an integer. -/
theorem value?_exact {text : List Char} (hclass : accepts.takesIntegers)
    (hliteral : Literal text kind) (htakes : accepts.value? kind ≠ .ok none) :
    ∃ value, (∀ other, accepts.Denotes text other ↔ other = value) ∧
      ((∀ n ∈ value.integers, FitsInt64 n) → accepts.value? kind = .ok (some value)) ∧
      ((∃ n ∈ value.integers, ¬ FitsInt64 n) →
        ∃ numeral n, n ∈ value.integers ∧ ¬ FitsInt64 n ∧ Keeps numeral n ∧
          accepts.value? kind = .error (.overflow numeral)) := by
  have hkind : kind.isNumber ∨ kind.isArray := by
    cases accepts with
    | int | size | time =>
      cases kind with
      | int | size => exact .inl rfl
      | intArray | intRows => exact .inr rfl
      | _ => exact absurd rfl htakes
    | _ => cases hclass
  have hmeans {other : FieldValue} (h : accepts.Denotes text other) : accepts.Means kind other := by
    obtain ⟨same, hsame, hother⟩ := h.exists_means
    have hsamekind : same.isNumber ∨ same.isArray := by
      cases hother with
      | int | tiles | size | time => exact .inl rfl
      | times | timeRows => exact .inr rfl
    rwa [hsame.eq_of_integers hliteral hsamekind hkind] at hother
  obtain ⟨value, hvalue⟩ := exists_denotes hclass hliteral htakes
  refine ⟨value, fun other => ⟨fun h => (hmeans h).unique (hmeans hvalue), ?_⟩, fun hfits => ?_,
    fun ⟨n, hn, hunfit⟩ => ?_⟩
  · rintro rfl
    exact hvalue
  · rcases hread : accepts.value? kind with cause | _ | found
    · obtain ⟨_, n, hn, hunfit, -⟩ := (hmeans hvalue).unfit_of_error hread
      exact absurd (hfits n hn) hunfit
    · exact absurd hread htakes
    · have hfound := (accepts_of_value? hread).means hclass
      rw [hfound.1.unique (hmeans hvalue)]
  · rcases hread : accepts.value? kind with cause | _ | found
    · obtain ⟨numeral, m, hm, hout, hkeeps, rfl⟩ := (hmeans hvalue).unfit_of_error hread
      exact ⟨numeral, m, hm, hout, hkeeps, rfl⟩
    · exact absurd hread htakes
    · obtain ⟨hfound, hfits⟩ := (accepts_of_value? hread).means hclass
      rw [hfound.unique (hmeans hvalue)] at hfits
      exact absurd (hfits n hn) hunfit

end FieldClass

end ResourceDecl
