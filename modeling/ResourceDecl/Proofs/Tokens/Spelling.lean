import ResourceDecl.Proofs.Tokens.Arrays
import ResourceDecl.Proofs.Tokens.Contents
import ResourceDecl.Token.Stream

/-!
# Spellings of tokens

A text `Spells` a token if the scanner reads the token from it wherever it stands in front of a
blank or at the end of a line. Every printed value is a spelling:

* `spells_word`: keywords and identifiers;
* `spells_int`, `spells_size`: integers, and integers with a unit;
* `spells_quoted`: strings, which may turn out to be sort keys;
* `spells_row`, `spells_rows`: arrays;
* `spells_of_mem_vocabulary`: the words of the vocabularies, be they integers or words.
-/

namespace ResourceDecl

open Text

/-! ## Where a token ends -/

/-- A blank stands there, or nothing. -/
def EndsToken (rest : List Char) : Prop :=
  ∀ c ∈ rest.head?, isInlineBlank c

theorem endsToken_nil : EndsToken [] := by
  intro c hc
  cases hc

theorem endsToken_cons {c : Char} {rest : List Char} :
    EndsToken (c :: rest) ↔ isInlineBlank c := by
  simp [EndsToken]

/-- A class without blanks ends where a token ends. -/
theorem EndsToken.stopsAt {p : Char → Bool} {rest : List Char} (h : EndsToken rest)
    (hspace : p ' ' = false) (htab : p '\t' = false) (hreturn : p '\r' = false) :
    StopsAt p rest := by
  intro c hc
  have hblank := h c hc
  simp only [isInlineBlank, Bool.or_eq_true, beq_iff_eq] at hblank
  rcases hblank with (rfl | rfl) | rfl
  · exact hspace
  · exact htab
  · exact hreturn

theorem StopsAt.startsWithWordChar {rest : List Char} (h : StopsAt isWordChar rest) :
    startsWithWordChar rest = false := by
  cases rest with
  | nil => rfl
  | cons c rest => exact stopsAt_cons.mp h

/-- The text is on one line, and is read as the token wherever the token ends behind it. -/
def Spells (text : List Char) (kind : TokenKind) : Prop :=
  '\n' ∉ text ∧ ∃ first tail, text = first :: tail ∧ isInlineBlank first = false ∧
    ∀ rest, EndsToken rest →
      opensComment first (tail ++ rest) = false ∧
        readLexeme first (tail ++ rest) = (.ok kind, rest)

/-! ## Words -/

/-- Letters, digits and underscores, not a digit first. -/
def isWord (word : String) : Bool :=
  match word.toList with
  | [] => false
  | first :: rest => isWordStart first && rest.all isWordChar

theorem isWordStart_ne {c d : Char} (h : isWordStart c) (hd : isWordStart d = false) : c ≠ d := by
  rintro rfl
  rw [h] at hd
  cases hd

theorem not_isDigit_of_isWordStart {c : Char} (h : isWordStart c) : c.isDigit = false := by
  simp only [isWordStart, Bool.or_eq_true, beq_iff_eq] at h
  rcases h with h | rfl
  · have hletter : c.isUpper = true ∨ c.isLower = true := Bool.or_eq_true_iff.mp h
    have hge : 65 ≤ c.val.toNat := by
      rcases hletter with h | h
      · exact (of_decide_eq_true h).1
      · have hlow : 97 ≤ c.val.toNat := of_decide_eq_true (Bool.and_eq_true_iff.mp h).1
        omega
    simp only [Char.isDigit, Bool.and_eq_false_imp, decide_eq_true_eq, decide_eq_false_iff_not]
    intro _ hle
    have hval : c.val.toNat ≤ 57 := hle
    omega
  · decide

theorem spells_word {word : String} (h : isWord word) : Spells word.toList (.ofWord word) := by
  unfold isWord at h
  split at h
  · cases h
  · rename_i first tail hword
    obtain ⟨hfirst, htail⟩ : isWordStart first ∧ ∀ c ∈ tail, isWordChar c := by simpa using h
    have hquote : first ≠ '"' := isWordStart_ne hfirst (by decide)
    have hopen : first ≠ '[' := isWordStart_ne hfirst (by decide)
    have hsign : first ≠ '-' := isWordStart_ne hfirst (by decide)
    have hhash : first ≠ '#' := isWordStart_ne hfirst (by decide)
    have hslash : first ≠ '/' := isWordStart_ne hfirst (by decide)
    have hspace : first ≠ ' ' := isWordStart_ne hfirst (by decide)
    have htab : first ≠ '\t' := isWordStart_ne hfirst (by decide)
    have hreturn : first ≠ '\r' := isWordStart_ne hfirst (by decide)
    have hline : '\n' ∉ word.toList := by
      rw [hword]
      intro hm
      rcases List.mem_cons.mp hm with rfl | hm
      · exact absurd hfirst (by decide)
      · exact absurd (htail _ hm) (by decide)
    refine ⟨hline, first, tail, hword, by simp [isInlineBlank, hspace, htab, hreturn], ?_⟩
    intro rest hrest
    have hstop : StopsAt isWordChar rest := hrest.stopsAt (by decide) (by decide) (by decide)
    have hback : String.ofList (first :: tail) = word := by rw [← hword, String.ofList_toList]
    refine ⟨by simp [opensComment, hhash, hslash], ?_⟩
    rw [readLexeme, if_neg hquote, if_neg hopen,
      if_neg (by simp [not_isDigit_of_isWordStart hfirst, hsign]), if_pos hfirst, readWord,
      takeWhile_append_of_stopsAt htail hstop, dropWhile_append_of_stopsAt htail hstop, hback]

/-! ## Numbers -/

/-- What opens a numeral is left to the reader of numbers. -/
theorem StartsNumeral.readLexeme_eq {first : Char} {rest : List Char}
    (h : StartsNumeral first rest) :
    opensComment first rest = false ∧ readLexeme first rest = readNumber (first :: rest) := by
  have hquote : first ≠ '"' := h.ne (by decide) (by decide)
  have hopen : first ≠ '[' := h.ne (by decide) (by decide)
  have hhash : first ≠ '#' := h.ne (by decide) (by decide)
  have hslash : first ≠ '/' := h.ne (by decide) (by decide)
  refine ⟨by simp [opensComment, hhash, hslash], ?_⟩
  rw [readLexeme, if_neg hquote, if_neg hopen]
  exact if_pos h

/-- A token that the reader of numbers makes of a printed integer and what follows it. -/
theorem spells_of_readNumber {n : Int} {suffix : List Char} {kind : TokenKind}
    (hsuffix : '\n' ∉ suffix) (h : ∀ rest, EndsToken rest →
      readNumber ((toString n).toList ++ (suffix ++ rest)) = (.ok kind, rest)) :
    Spells ((toString n).toList ++ suffix) kind := by
  obtain ⟨first, tail, hcons, hstart⟩ := exists_toString_eq_cons n
  have hline : '\n' ∉ (toString n).toList ++ suffix := by
    simpa using ⟨not_mem_toString (c := '\n') (by decide) (by decide) n, hsuffix⟩
  refine ⟨hline, first, tail ++ suffix, by rw [hcons, List.cons_append], (hstart []).not_blank, ?_⟩
  intro rest hrest
  have hread := h rest hrest
  obtain ⟨hcomment, hlexeme⟩ := (hstart (suffix ++ rest)).readLexeme_eq
  rw [hcons, List.cons_append] at hread
  rw [List.append_assoc]
  exact ⟨hcomment, hlexeme.trans hread⟩

theorem spells_int (n : Int) : Spells (toString n).toList (.int (toString n)) := by
  rw [← List.append_nil (toString n).toList]
  apply spells_of_readNumber List.not_mem_nil
  intro rest hrest
  have hstop : StopsAt isWordChar rest := hrest.stopsAt (by decide) (by decide) (by decide)
  have hunit : readUnit? rest = none := by
    cases rest with
    | nil => rfl
    | cons c rest =>
      have hnone : StopsAt (fun c => (SizeUnit.ofChar? c).isSome) (c :: rest) :=
        hrest.stopsAt (by decide) (by decide) (by decide)
      have hc : SizeUnit.ofChar? c = none := by simpa [StopsAt] using hnone
      simp [readUnit?, hc]
  rw [List.nil_append, readNumber,
    readInteger_toString n (hrest.stopsAt (by decide) (by decide) (by decide))]
  simp [hunit, hstop.startsWithWordChar]

theorem spells_size (n : Int) (unit : SizeUnit) :
    Spells ((toString n).toList ++ [unit.letter]) (.size (toString n) unit) := by
  apply spells_of_readNumber (by cases unit <;> decide)
  intro rest hrest
  have hstop : StopsAt isWordChar rest := hrest.stopsAt (by decide) (by decide) (by decide)
  have hletter : StopsAt isDigitOrSeparator (unit.letter :: rest) := by
    apply stopsAt_cons.mpr
    cases unit <;> decide
  rw [List.singleton_append, readNumber, readInteger_toString n hletter]
  simp [readUnit?, hstop.startsWithWordChar]

/-! ## Strings and arrays -/

theorem spells_quoted {content : String} (h : IsContent content.toList) :
    Spells (quoted content).toList (.ofContent content.toList) := by
  have hline : '\n' ∉ (quoted content).toList := by simpa [quoted] using h.not_mem_newline
  refine ⟨hline, '"', content.toList ++ ['"'], by simp [quoted], by decide, ?_⟩
  intro rest _
  refine ⟨by simp [opensComment], ?_⟩
  rw [readLexeme, if_pos rfl, readString, List.append_assoc, List.singleton_append,
    readContent_complete h]
  rfl

theorem spells_row {values : List Int} (hne : values ≠ []) :
    Spells (printRow values).toList (.intArray (values.map toString)) := by
  refine ⟨not_mem_printRow values, '[', rowBody values, toList_printRow values, by decide, ?_⟩
  intro rest hrest
  have hopen : StopsAt (· == '[') rest := hrest.stopsAt (by decide) (by decide) (by decide)
  refine ⟨by simp [opensComment], ?_⟩
  rw [readLexeme, if_neg (by decide), if_pos rfl, readArray_row hne hopen]

theorem spells_rows {rows : List (List Int)} (hne : rows ≠ []) (hrows : ∀ row ∈ rows, row ≠ []) :
    Spells ("[" ++ String.join (rows.map printRow) ++ "]").toList
      (.intRows (rows.map (List.map toString))) := by
  have hline : '\n' ∉ ("[" ++ String.join (rows.map printRow) ++ "]").toList := by
    simpa using fun row _ => not_mem_printRow row
  refine ⟨hline, '[', (String.join (rows.map printRow)).toList ++ [']'], by simp, by decide, ?_⟩
  intro rest _
  refine ⟨by simp [opensComment], ?_⟩
  rw [readLexeme, if_neg (by decide), if_pos rfl, List.append_assoc, List.singleton_append,
    readArray_rows hne hrows]

/-! ## Words of vocabularies -/

/-- The token of a word of a vocabulary. -/
def wordKind (word : String) : TokenKind :=
  if isWord word then .ofWord word else .int word

/-- Every word of a vocabulary is a word or an integer. -/
theorem isWord_or_toString_of_mem {v : Vocabulary} {word : String} (h : word ∈ v) :
    isWord word ∨ isWord word = false ∧ ∃ n : Int, word = toString n := by
  have hall : ∀ v ∈ Vocabulary.all, ∀ word ∈ v.spellings, isWord word ∨
      isWord word = false ∧ ∃ n ∈ [(-1 : Int), 0, 1, 2, 3], word = toString n := by
    decide +kernel
  rcases hall v (Vocabulary.mem_all v) word h with hword | ⟨hword, n, -, hn⟩
  · exact .inl hword
  · exact .inr ⟨hword, n, hn⟩

theorem spells_of_mem_vocabulary {v : Vocabulary} {word : String} (h : word ∈ v) :
    Spells word.toList (wordKind word) := by
  unfold wordKind
  rcases isWord_or_toString_of_mem h with hword | ⟨hword, n, rfl⟩
  · rw [if_pos hword]
    exact spells_word hword
  · rw [if_neg (Bool.eq_false_iff.mp hword)]
    exact spells_int n

theorem word?_wordKind (word : String) : (wordKind word).word? = some word := by
  unfold wordKind
  split
  · exact TokenKind.word?_ofWord word
  · rfl

end ResourceDecl
