import Mathlib.Data.List.DropRight
import ResourceDecl.Proofs.Tokens.Lines

/-!
# What tokens and comments carry

Tokens that were read from a line satisfy `TokenKind.Lexed`: names are words that are not reserved,
contents of strings are contents, arrays have elements, and no token stands for a line feed, for
the end or for what could not be read. Comments that were read satisfy `IsComment`.

* `readLexeme_suffix`: a reader leaves an end of its line.
* `readLexeme_lexed`, `Lexes.lexed`: the tokens of a line are `Lexed`.
* `Lexes.isComment`, `IsComment.lexes`: the comment of a line is read back from its own text.
-/

namespace ResourceDecl

open Text

/-! ## Readers leave an end of the line -/

theorem readContent_suffix (done text : List Char) : (readContent done text).2 <:+ text := by
  fun_induction readContent done text with
  | case1 => exact List.suffix_rfl
  | case2 => exact List.suffix_rfl
  | case3 => exact List.suffix_cons _ _
  | case4 => exact List.nil_suffix
  | case5 => exact List.suffix_cons _ _
  | case6 _ _ _ _ ih => exact (ih.trans (List.suffix_cons _ _)).trans (List.suffix_cons _ _)
  | case7 _ _ _ _ _ _ _ ih => exact ih.trans (List.suffix_cons _ _)

theorem readInteger_suffix (text : List Char) : (readInteger text).2 <:+ text := by
  have hmagnitude (sign text : List Char) : (readMagnitude sign text).2 <:+ text :=
    List.dropWhile_suffix _
  rw [readInteger.eq_def]
  split
  · split
    · exact (hmagnitude _ _).trans (List.suffix_cons _ _)
    · exact List.suffix_cons _ _
  · exact hmagnitude _ _

theorem readUnit?_suffix {text next : List Char} {unit : SizeUnit}
    (h : readUnit? text = some (unit, next)) : next <:+ text := by
  cases text with
  | nil => cases h
  | cons c text =>
    rw [readUnit?] at h
    split at h
    · cases h
    · obtain ⟨_, _, heq⟩ := Option.map_eq_some_iff.mp h
      cases heq
      exact List.suffix_cons _ _

theorem readNumber_suffix (text : List Char) : (readNumber text).2 <:+ text := by
  have hinteger := readInteger_suffix text
  rw [readNumber]
  split <;> rename_i heq <;> rw [heq] at hinteger
  · exact hinteger
  · split
    · rename_i hunit
      exact (readUnit?_suffix hunit).trans hinteger
    · split
      · exact (List.dropWhile_suffix _).trans hinteger
      · exact hinteger

theorem skipBlanks_suffix (text : List Char) : skipBlanks text <:+ text :=
  List.dropWhile_suffix _

theorem suffix_of_skipBlanks_eq {text tail : List Char} {c : Char}
    (h : skipBlanks text = c :: tail) : tail <:+ text :=
  (List.suffix_cons c tail).trans (h ▸ skipBlanks_suffix text)

theorem readElement_suffix (isFirst : Bool) (text : List Char) :
    (readElement isFirst text).2 <:+ text := by
  have hs := skipBlanks_suffix text
  rw [readElement]
  split <;> rename_i heq <;> rw [heq] at hs
  · split
    · exact (List.suffix_cons _ _).trans hs
    · exact hs
  · split
    · exact (readInteger_suffix _).trans hs
    · exact hs
  · exact List.nil_suffix

theorem readRow_suffix (done : List String) (text : List Char) :
    (readRow done text).2 <:+ text := by
  fun_induction readRow done text with
  | case1 done text fault tail hr =>
    have helement := readElement_suffix done.isEmpty text
    rwa [hr] at helement
  | case2 done text numeral tail hr next hs ih =>
    have helement := readElement_suffix done.isEmpty text
    rw [hr] at helement
    exact ih.trans ((suffix_of_skipBlanks_eq hs).trans helement)
  | case3 done text numeral tail hr next hs =>
    have helement := readElement_suffix done.isEmpty text
    rw [hr] at helement
    exact (suffix_of_skipBlanks_eq hs).trans helement
  | case4 done text numeral tail hr =>
    have helement := readElement_suffix done.isEmpty text
    rw [hr] at helement
    exact (skipBlanks_suffix tail).trans helement

theorem readAdjacentRows_suffix (done : List (List String)) (text : List Char) :
    (readAdjacentRows done text).2 <:+ text := by
  fun_induction readAdjacentRows done text with
  | case1 done tail fault next hr =>
    have hrow := readRow_suffix [] tail
    rw [hr] at hrow
    exact hrow.trans (List.suffix_cons _ _)
  | case2 done tail row next hr ih =>
    have hrow := readRow_suffix [] tail
    rw [hr] at hrow
    exact ih.trans (hrow.trans (List.suffix_cons _ _))
  | case3 => exact List.suffix_rfl

theorem readListedRows_suffix (done : List (List String)) (text : List Char) :
    (readListedRows done text).2 <:+ text := by
  fun_induction readListedRows done text with
  | case1 done text tail hs fault next hr =>
    have hrow := readRow_suffix [] tail
    rw [hr] at hrow
    exact hrow.trans (suffix_of_skipBlanks_eq hs)
  | case2 done text tail hs row next hr ih =>
    have hrow := readRow_suffix [] tail
    rw [hr] at hrow
    exact ih.trans (hrow.trans (suffix_of_skipBlanks_eq hs))
  | case3 done text tail hs _ => exact hs ▸ skipBlanks_suffix text
  | case4 done text tail hs _ ih => exact ih.trans (suffix_of_skipBlanks_eq hs)
  | case5 done text tail hs _ => exact hs ▸ skipBlanks_suffix text
  | case6 done text tail hs _ => exact suffix_of_skipBlanks_eq hs
  | case7 done text => exact skipBlanks_suffix text

theorem readArray_suffix (text : List Char) : (readArray text).2 <:+ text := by
  have hs := skipBlanks_suffix text
  rw [readArray]
  split
  · rename_i heq
    rw [heq] at hs
    exact (readListedRows_suffix [] _).trans hs
  · have hrow := readRow_suffix [] (skipBlanks text)
    split <;> rename_i heq <;> rw [heq] at hrow
    · exact hrow.trans hs
    · exact (readAdjacentRows_suffix _ _).trans (hrow.trans hs)

/-- The first character of a lexeme is never given back. -/
theorem readLexeme_suffix (first : Char) (text : List Char) :
    (readLexeme first text).2 <:+ text := by
  rw [readLexeme]
  split
  · exact readContent_suffix [] text
  · split
    · exact readArray_suffix text
    · split
      · rename_i hnumeral
        have hstart : first = '-' ∨ first.isDigit := hnumeral.elim .inr fun h => .inl h.1
        have hlt : (readNumber (first :: text)).2.length < (first :: text).length :=
          length_readNumber_lt hstart
        rcases List.suffix_cons_iff.mp (readNumber_suffix (first :: text)) with heq | h
        · rw [heq] at hlt
          omega
        · exact h
      · split
        · exact List.dropWhile_suffix _
        · exact List.suffix_rfl

theorem suffix_of_readLexeme {tail next : List Char} {first : Char}
    {result : Except LexFault TokenKind} (hr : readLexeme first tail = (result, next)) :
    next <:+ tail := by
  have hnext := readLexeme_suffix first tail
  rwa [hr] at hnext

theorem suffix_of_readLexeme_eq {rest tail next : List Char} {first : Char}
    {result : Except LexFault TokenKind} (hs : skipBlanks rest = first :: tail)
    (hr : readLexeme first tail = (result, next)) : next <:+ rest :=
  (suffix_of_readLexeme hr).trans (suffix_of_skipBlanks_eq hs)

theorem consumed_append {text rest : List Char} (h : rest <:+ text) :
    consumed text rest ++ rest = text := by
  obtain ⟨front, rfl⟩ := h
  simp [consumed]

theorem consumed_append_right (text rest : List Char) : consumed (text ++ rest) rest = text := by
  simp [consumed]

theorem consumed_ne_nil {text rest : List Char} {first : Char} (h : rest <:+ text) :
    consumed (first :: text) rest ≠ [] := by
  have hle := h.length_le
  intro hnil
  have hlen := congrArg List.length hnil
  rw [consumed, List.length_take, List.length_cons, List.length_nil] at hlen
  omega

/-- The blanks in front of a lexeme and what begins with it. -/
theorem gap_append {rest text : List Char} (hs : skipBlanks rest = text) :
    rest.takeWhile isInlineBlank ++ text = rest := by
  rw [← hs]
  exact List.takeWhile_append_dropWhile

/-- A line is the blanks in front of a lexeme, the lexeme, and what its reader left. -/
theorem lexeme_append {rest tail next : List Char} {first : Char}
    {result : Except LexFault TokenKind} (hs : skipBlanks rest = first :: tail)
    (hr : readLexeme first tail = (result, next)) :
    rest.takeWhile isInlineBlank ++ (consumed (first :: tail) next ++ next) = rest ∧
      consumed (first :: tail) next ≠ [] := by
  have hsuffix := suffix_of_readLexeme hr
  rw [consumed_append (hsuffix.trans (List.suffix_cons _ _))]
  exact ⟨gap_append hs, consumed_ne_nil hsuffix⟩

/-! ## Tokens -/

/-- A word that is not reserved. -/
def IsName (word : String) : Prop :=
  isWord word ∧ Keyword.ofSpelling? word = none

/-- What the tokens of a line carry. -/
def TokenKind.Lexed : TokenKind → Prop
  | keyword _ | int _ | size _ _ => True
  | ident word => IsName word
  | intArray numerals => numerals ≠ []
  | intRows rows => rows ≠ [] ∧ ∀ row ∈ rows, row ≠ []
  | string content => IsContent content.toList ∧ ofContent content.toList = .string content
  | sortKey key => IsContent key.toList ∧ key ≠ ""
  | newline | unreadable | done => False

theorem TokenKind.lexed_ofContent {content : List Char} (h : IsContent content) :
    (ofContent content).Lexed := by
  rcases ofContent_cases content with heq | ⟨key, heq, hne, rfl⟩
  · rw [heq]
    show IsContent _ ∧ _
    rw [String.toList_ofList]
    exact ⟨h, heq⟩
  · rw [heq]
    exact ⟨isContent_mark_append.mp h, hne⟩

theorem TokenKind.lexed_ofWord {word : String} (h : isWord word) : (ofWord word).Lexed := by
  rw [ofWord]
  split
  · trivial
  · rename_i hnone
    exact ⟨h, hnone⟩

theorem lexed_of_readNumber {text next : List Char} {kind : TokenKind}
    (h : readNumber text = (.ok kind, next)) : kind.Lexed := by
  rw [readNumber] at h
  split at h
  · cases h
  · split at h
    · cases h
      trivial
    · split at h
      · cases h
      · cases h
        trivial

/-- A token is read from a line with what it may carry. -/
theorem readLexeme_lexed {first : Char} {text next : List Char} {kind : TokenKind}
    (h : readLexeme first text = (.ok kind, next)) : kind.Lexed := by
  rw [readLexeme] at h
  split at h
  · obtain ⟨content, hread, rfl⟩ := Reading.map_eq_ok_iff.mp h
    obtain ⟨body, hbody, rfl, -⟩ := readContent_sound hread
    exact TokenKind.lexed_ofContent hbody
  · split at h
    · rcases readArray_sound h with ⟨numerals, rfl, hne⟩ | ⟨rows, rfl, hne, hrows⟩
      · exact hne
      · exact ⟨hne, hrows⟩
    · split at h
      · exact lexed_of_readNumber h
      · split at h
        · rename_i hstart
          cases h
          apply TokenKind.lexed_ofWord
          simp only [isWord, String.toList_ofList, Bool.and_eq_true, List.all_eq_true]
          exact ⟨hstart, fun c hc => List.all_eq_true.mp List.all_takeWhile c hc⟩
        · cases h

theorem Lexes.lexed {rest : List Char} {kinds : List TokenKind} {comment : Option String}
    (h : Lexes rest kinds comment) : ∀ kind ∈ kinds, kind.Lexed := by
  induction h with
  | blank => simp
  | comment => simp
  | token hs hc hr _ ih => exact List.forall_mem_cons.mpr ⟨readLexeme_lexed hr, ih⟩

/-! ## Comments -/

/-- A comment as it is kept: it opens as one, no blank ends it, and it is on one line. -/
structure IsComment (text : List Char) : Prop where
  opens : ∃ first tail, text = first :: tail ∧ opensComment first tail
  trimmed : trimEnd text = text
  line : '\n' ∉ text

theorem not_blank_of_opensComment {first : Char} {tail : List Char}
    (h : opensComment first tail) : isBlank first = false := by
  simp only [opensComment, Bool.or_eq_true, Bool.and_eq_true, beq_iff_eq] at h
  rcases h with rfl | ⟨rfl, -⟩ <;> decide

theorem not_inlineBlank_of_opensComment {first : Char} {tail : List Char}
    (h : opensComment first tail) : isInlineBlank first = false := by
  cases hinline : isInlineBlank first with
  | false => rfl
  | true =>
    have hnot := not_blank_of_opensComment h
    rw [isBlank_of_isInlineBlank hinline] at hnot
    cases hnot

/-- Cutting the blanks at its end leaves a comment a comment. -/
theorem isComment_trimEnd {first : Char} {tail : List Char} (h : opensComment first tail)
    (hline : '\n' ∉ first :: tail) : IsComment (trimEnd (first :: tail)) := by
  have hcut := trimEnd_append (first :: tail)
  have hblanks {c : Char} (hc : c ∈ trimmed (first :: tail)) := isBlank_of_mem_trimmed hc
  refine ⟨?_, List.rdropWhile_idempotent _ _, ?_⟩
  · rcases hkept : trimEnd (first :: tail) with _ | ⟨c, kept⟩
    · rw [hkept, List.nil_append] at hcut
      have hfirst := hblanks (c := first) (by rw [hcut]; exact List.mem_cons_self)
      rw [not_blank_of_opensComment h] at hfirst
      cases hfirst
    · rw [hkept, List.cons_append] at hcut
      obtain ⟨rfl, htail⟩ := List.cons.inj hcut
      refine ⟨c, kept, rfl, ?_⟩
      simp only [opensComment, Bool.or_eq_true, Bool.and_eq_true, beq_iff_eq] at h ⊢
      rcases h with h | ⟨h, hsecond⟩
      · exact .inl h
      · refine .inr ⟨h, ?_⟩
        cases kept with
        | nil =>
          -- a slash that was cut off would be a blank
          rw [List.nil_append] at htail
          rw [← htail] at hsecond
          have hslash := hblanks (List.mem_of_mem_head? hsecond)
          exact absurd hslash (by decide)
        | cons d kept =>
          rw [← htail] at hsecond
          exact hsecond
  · intro hm
    apply hline
    rw [← hcut]
    exact List.mem_append_left _ hm

theorem Lexes.isComment {rest : List Char} {kinds : List TokenKind} {comment : Option String}
    (h : Lexes rest kinds comment) (hline : '\n' ∉ rest) :
    ∀ text ∈ comment, IsComment text.toList := by
  induction h with
  | blank => simp
  | @comment rest tail first hs hc =>
    rintro text ⟨⟩
    rw [String.toList_ofList]
    apply isComment_trimEnd hc
    intro hm
    rw [← hs] at hm
    exact hline ((skipBlanks_suffix rest).mem hm)
  | token hs hc hr _ ih =>
    have hnext := suffix_of_readLexeme_eq hs hr
    exact ih fun hm => hline (hnext.mem hm)

theorem IsComment.lexes {text : String} (h : IsComment text.toList) :
    Lexes text.toList [] (some text) := by
  obtain ⟨⟨first, tail, heq, hopens⟩, htrimmed, -⟩ := h
  have hlexes : Lexes (first :: tail) [] (some (String.ofList (trimEnd (first :: tail)))) :=
    .comment (skipBlanks_cons (not_inlineBlank_of_opensComment hopens) tail) hopens
  rwa [← heq, htrimmed, String.ofList_toList] at hlexes

end ResourceDecl
