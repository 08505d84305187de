import ResourceDecl.Proofs.Tokens.Delimited

/-!
# Line feeds

No lexeme crosses a line feed. A reader takes a line feed for the end of the text, and leaves it and
everything behind it where they are. So a source can be cut at its line feeds before it is scanned.

* `readLexeme_append`: a lexeme is read from its line alone, be it well-formed or not.
* `scanText_line`: what is scanned on a line, and where the scanner goes on behind it.
* `TokenStream.ofSource_eq_lines`: the scanner of a source agrees with the scan line by line.
-/

namespace ResourceDecl

open Text

/-! ## Readers at a line feed -/

/-- Nothing stands there, or a line feed. -/
def AtLineEnd (rest : List Char) : Prop :=
  ∀ c ∈ rest.head?, c = '\n'

theorem atLineEnd_nil : AtLineEnd [] :=
  fun _ hc => by cases hc

theorem atLineEnd_newline (rest : List Char) : AtLineEnd ('\n' :: rest) := by
  rintro _ ⟨⟩
  rfl

theorem AtLineEnd.cases {rest : List Char} (h : AtLineEnd rest) :
    rest = [] ∨ ∃ more, rest = '\n' :: more := by
  cases rest with
  | nil => exact .inl rfl
  | cons c more => exact .inr ⟨more, by rw [h c rfl]⟩

/-- The same reading, of a text that goes on. -/
def Reading.before {α : Type} (reading : Reading α) (more : List Char) : Reading α :=
  (reading.1, reading.2 ++ more)

@[simp] theorem Reading.before_mk {α : Type} (result : Except LexFault α)
    (rest more : List Char) : Reading.before (result, rest) more = (result, rest ++ more) := rfl

section Readers

variable {more : List Char}

namespace AtLineEnd

theorem takeWhile_append {p : Char → Bool} (h : AtLineEnd more) (hp : p '\n' = false)
    (text : List Char) : (text ++ more).takeWhile p = text.takeWhile p := by
  induction text with
  | nil => rcases h.cases with rfl | ⟨more, rfl⟩ <;> simp [hp]
  | cons c text ih => rw [List.cons_append, List.takeWhile_cons, List.takeWhile_cons, ih]

theorem dropWhile_append {p : Char → Bool} (h : AtLineEnd more) (hp : p '\n' = false)
    (text : List Char) : (text ++ more).dropWhile p = text.dropWhile p ++ more := by
  induction text with
  | nil => rcases h.cases with rfl | ⟨more, rfl⟩ <;> simp [hp]
  | cons c text ih =>
    rw [List.cons_append, List.dropWhile_cons, List.dropWhile_cons, ih]
    split <;> rfl

theorem skipBlanks_append (h : AtLineEnd more) (text : List Char) :
    skipBlanks (text ++ more) = skipBlanks text ++ more :=
  h.dropWhile_append rfl text

theorem startsWithDigit_append (h : AtLineEnd more) (text : List Char) :
    startsWithDigit (text ++ more) = startsWithDigit text := by
  cases text with
  | nil => rcases h.cases with rfl | ⟨more, rfl⟩ <;> rfl
  | cons c text => rfl

theorem startsWithWordChar_append (h : AtLineEnd more) (text : List Char) :
    startsWithWordChar (text ++ more) = startsWithWordChar text := by
  cases text with
  | nil => rcases h.cases with rfl | ⟨more, rfl⟩ <;> rfl
  | cons c text => rfl

theorem opensComment_append (h : AtLineEnd more) (first : Char) (text : List Char) :
    opensComment first (text ++ more) = opensComment first text := by
  cases text with
  | nil => rcases h.cases with rfl | ⟨more, rfl⟩ <;> rfl
  | cons c text => rfl

/-- Where a text goes on at its line feed, it begins with no other character than before. -/
theorem append_ne_cons {c : Char} {text : List Char} (h : AtLineEnd more) (hc : '\n' ≠ c)
    (hne : ∀ next, text ≠ c :: next) (next : List Char) : text ++ more ≠ c :: next := by
  cases text with
  | nil =>
    rcases h.cases with rfl | ⟨more, rfl⟩
    · nofun
    · exact fun heq => hc (List.cons.inj heq).1
  | cons d text =>
    rintro heq
    obtain ⟨rfl, -⟩ := List.cons.inj heq
    exact hne text rfl

end AtLineEnd

theorem readContent_append (h : AtLineEnd more) (done text : List Char) :
    readContent done (text ++ more) = (readContent done text).before more := by
  fun_induction readContent done text with
  | case1 => rcases h.cases with rfl | ⟨more, rfl⟩ <;> rfl
  | case2 => rfl
  | case3 => rfl
  | case4 => rcases h.cases with rfl | ⟨more, rfl⟩ <;> simp [readContent]
  | case5 done c text hstop => simp [readContent, hstop]
  | case6 done c text hstop ih => simpa [readContent, hstop] using ih
  | case7 done c text hline hquote hlast hslash ih =>
    have hplain : c ≠ '\\' := by
      rintro rfl
      cases text with
      | nil => exact hlast rfl rfl
      | cons d text => exact hslash d text rfl rfl
    rw [List.cons_append, readContent, ih]
    · exact hline
    · exact hquote
    · intro h
      exact absurd h hplain
    · intro _ _ h
      exact absurd h hplain

theorem readMagnitude_append (h : AtLineEnd more) (sign text : List Char) :
    readMagnitude sign (text ++ more) = (readMagnitude sign text).before more := by
  simp only [readMagnitude, h.takeWhile_append (p := isDigitOrSeparator) rfl,
    h.dropWhile_append (p := isDigitOrSeparator) rfl]
  rfl

theorem readInteger_append (h : AtLineEnd more) (text : List Char) :
    readInteger (text ++ more) = (readInteger text).before more := by
  rw [readInteger.eq_def text]
  split
  · rename_i rest
    rw [List.cons_append, readInteger, h.startsWithDigit_append, readMagnitude_append h]
    split <;> rfl
  · rename_i hsign
    rw [← readMagnitude_append h, readInteger]
    rintro rest heq
    cases text with
    | nil => rcases h.cases with rfl | ⟨more, rfl⟩ <;> cases heq
    | cons c text =>
      obtain ⟨rfl, -⟩ := List.cons.inj heq
      exact hsign text rfl

theorem readUnit?_append (h : AtLineEnd more) (text : List Char) :
    readUnit? (text ++ more) = (readUnit? text).map fun read => (read.1, read.2 ++ more) := by
  cases text with
  | nil =>
    rcases h.cases with rfl | ⟨more, rfl⟩
    · rfl
    · show (if _ then _ else _) = none
      split <;> rfl
  | cons c text =>
    rw [List.cons_append, readUnit?, readUnit?, h.startsWithWordChar_append]
    split
    · rfl
    · rw [Option.map_map]
      rfl

theorem readNumber_append (h : AtLineEnd more) (text : List Char) :
    readNumber (text ++ more) = (readNumber text).before more := by
  rw [readNumber, readNumber, readInteger_append h]
  rcases readInteger text with ⟨fault | numeral, rest⟩
  · rfl
  · simp only [Reading.before_mk, readUnit?_append h, h.startsWithWordChar_append]
    rcases readUnit? rest with _ | ⟨unit, next⟩
    · simp only [Option.map_none, h.dropWhile_append (p := isWordChar) rfl]
      split <;> rfl
    · rfl

theorem readElement_append (h : AtLineEnd more) (isFirst : Bool) (text : List Char) :
    readElement isFirst (text ++ more) = (readElement isFirst text).before more := by
  rw [readElement, readElement, h.skipBlanks_append]
  rcases skipBlanks text with _ | ⟨c, tail⟩
  · rcases h.cases with rfl | ⟨more, rfl⟩ <;> rfl
  · have hread := readInteger_append h (c :: tail)
    rw [List.cons_append] at hread ⊢
    split <;> rename_i heq <;> cases heq
    · cases isFirst <;> rfl
    · rename_i hclose
      simp only [hread]
      split <;> rfl

theorem readRow_append (h : AtLineEnd more) (done : List String) (text : List Char) :
    readRow done (text ++ more) = (readRow done text).before more := by
  fun_induction readRow done text with
  | case1 done text fault tail hr => simp [readRow_eq done (text ++ more), readElement_append h, hr]
  | case2 done text numeral tail hr next hs ih =>
    rw [readRow_eq]
    simp [readElement_append h, hr, h.skipBlanks_append, hs, ih]
  | case3 done text numeral tail hr next hs =>
    rw [readRow_eq]
    simp [readElement_append h, hr, h.skipBlanks_append, hs]
  | case4 done text numeral tail hr hcomma hclose =>
    rw [readRow_eq]
    simp only [readElement_append h, hr, h.skipBlanks_append, Reading.before_mk]
    split <;> rename_i heq
    · exact absurd heq (h.append_ne_cons (by decide) hcomma _)
    · exact absurd heq (h.append_ne_cons (by decide) hclose _)
    · rfl

theorem readAdjacentRows_append (h : AtLineEnd more) (done : List (List String))
    (text : List Char) :
    readAdjacentRows done (text ++ more) = (readAdjacentRows done text).before more := by
  fun_induction readAdjacentRows done text with
  | case1 done tail fault next hr =>
    simp [readAdjacentRows_eq, readRow_append h, hr]
  | case2 done tail row next hr ih =>
    rw [List.cons_append, readAdjacentRows_eq]
    simp [readRow_append h, hr, ih]
  | case3 done text hopen =>
    rw [readAdjacentRows_eq]
    split <;> rename_i heq
    · exact absurd heq (h.append_ne_cons (by decide) hopen _)
    · rfl

theorem readListedRows_append (h : AtLineEnd more) (done : List (List String))
    (text : List Char) :
    readListedRows done (text ++ more) = (readListedRows done text).before more := by
  fun_induction readListedRows done text with
  | case1 done text tail hs fault next hr =>
    rw [readListedRows_eq]
    simp [h.skipBlanks_append, hs, readRow_append h, hr]
  | case2 done text tail hs row next hr ih =>
    rw [readListedRows_eq]
    simp [h.skipBlanks_append, hs, readRow_append h, hr, ih]
  | case3 done text tail hs hempty =>
    rw [readListedRows_eq]
    simp [h.skipBlanks_append, hs, hempty]
  | case4 done text tail hs hempty ih =>
    rw [readListedRows_eq]
    simp [h.skipBlanks_append, hs, hempty, ih]
  | case5 done text tail hs hempty =>
    rw [readListedRows_eq]
    simp [h.skipBlanks_append, hs, hempty]
  | case6 done text tail hs hempty =>
    rw [readListedRows_eq]
    simp [h.skipBlanks_append, hs, hempty]
  | case7 done text hopen hcomma hclose =>
    rw [readListedRows_eq, h.skipBlanks_append]
    split <;> rename_i heq
    · exact absurd heq (h.append_ne_cons (by decide) hopen _)
    · exact absurd heq (h.append_ne_cons (by decide) hcomma _)
    · exact absurd heq (h.append_ne_cons (by decide) hclose _)
    · rfl

theorem readArray_append (h : AtLineEnd more) (text : List Char) :
    readArray (text ++ more) = (readArray text).before more := by
  rw [readArray.eq_def text]
  split
  · rename_i tail hs
    have hrows := readListedRows_append h [] ('[' :: tail)
    rw [List.cons_append] at hrows
    rw [readArray, h.skipBlanks_append, hs, List.cons_append]
    simp only [hrows]
    rfl
  · rename_i hopen
    rw [readArray, h.skipBlanks_append]
    split
    · rename_i heq
      exact absurd heq (h.append_ne_cons (by decide) hopen _)
    · rw [readRow_append h]
      rcases readRow [] (skipBlanks text) with ⟨fault | row, next⟩
      · rfl
      · simp only [Reading.before_mk, readAdjacentRows_append h]
        rfl

theorem readWord_append (h : AtLineEnd more) (first : Char) (text : List Char) :
    readWord first (text ++ more) = (readWord first text).before more := by
  simp only [readWord, h.takeWhile_append (p := isWordChar) rfl,
    h.dropWhile_append (p := isWordChar) rfl]
  rfl

/-- No lexeme crosses a line feed: it is read as if the text ended there, be it well-formed or
not. -/
theorem readLexeme_append (h : AtLineEnd more) (first : Char) (text : List Char) :
    readLexeme first (text ++ more) = (readLexeme first text).before more := by
  rw [readLexeme, readLexeme, h.startsWithDigit_append]
  split
  · rw [readString, readContent_append h]
    rfl
  · split
    · exact readArray_append h text
    · split
      · exact readNumber_append h (first :: text)
      · split
        · exact readWord_append h first text
        · rfl

end Readers

/-! ## Steps of the scanner -/

@[simp] theorem Scanner.behind_nil (scanner : Scanner) : scanner.behind [] = scanner := rfl

theorem Scanner.behind_append (scanner : Scanner) (front text : List Char) :
    scanner.behind (front ++ text) = (scanner.behind front).behind text := by
  simp [behind, Nat.add_assoc]

/-- Blanks in front of a lexeme move the scanner, and nothing else. -/
theorem scanText_gap {gap : List Char} (hgap : ∀ c ∈ gap, isInlineBlank c) (scanner : Scanner)
    (rest : List Char) : scanText scanner (gap ++ rest) = scanText (scanner.behind gap) rest := by
  rw [scanText_eq, scanText_eq (scanner.behind gap), List.takeWhile_append_of_pos hgap,
    skipBlanks_append hgap, Scanner.behind_append]

theorem scanText_skip {rest tail : List Char} {first : Char} (hs : skipBlanks rest = first :: tail)
    (scanner : Scanner) (more : List Char) :
    scanText scanner (rest ++ more) =
      scanText (scanner.behind (rest.takeWhile isInlineBlank)) (first :: (tail ++ more)) := by
  rw [← scanText_gap fun _ => List.mem_takeWhile_imp, ← List.cons_append, ← List.append_assoc,
    gap_append hs]

theorem scanText_nil (scanner : Scanner) :
    scanText scanner [] = ⟨[scanner.token .done []], [], []⟩ := by
  rw [scanText_eq]
  rfl

theorem scanText_newline (scanner : Scanner) (rest : List Char) :
    scanText scanner ('\n' :: rest) =
      let after := scanText scanner.nextLine rest
      if scanner.seen then
        { after with tokens := scanner.token .newline ['\n'] :: after.tokens }
      else after := by
  rw [scanText_eq]
  rfl

section Steps

variable {first : Char} {tail next : List Char} {kind : TokenKind} {fault : LexFault}
  (hblank : isInlineBlank first = false) (hfeed : first ≠ '\n') (scanner : Scanner)

include hblank hfeed

theorem scanText_comment (hc : opensComment first tail) :
    scanText scanner (first :: tail) =
      let after := scanText (scanner.behind (first :: lineOf tail)) (skipLine tail)
      { after with comments := scanner.comment (first :: lineOf tail) :: after.comments } := by
  simp only [scanText_eq scanner, skipBlanks_cons hblank, List.takeWhile_cons, hblank, hfeed, hc,
    if_true, if_false, Bool.false_eq_true, Scanner.behind_nil]

theorem scanText_token (hc : ¬ opensComment first tail)
    (hr : readLexeme first tail = (.ok kind, next)) :
    scanText scanner (first :: tail) =
      let text := consumed (first :: tail) next
      let after := scanText (scanner.behindToken text) next
      { after with tokens := scanner.token kind text :: after.tokens } := by
  simp only [scanText_eq scanner, skipBlanks_cons hblank, List.takeWhile_cons, hblank, hfeed, hc,
    hr, if_false, Bool.false_eq_true, Scanner.behind_nil]

theorem scanText_fault (hc : ¬ opensComment first tail)
    (hr : readLexeme first tail = (.error fault, next)) :
    scanText scanner (first :: tail) =
      let text := consumed (first :: tail) (skipLine next)
      let offending := String.ofList (consumed (first :: tail) next)
      let token := scanner.token .unreadable text
      let after := scanText (scanner.behindToken text) (skipLine next)
      { after with
        tokens := token :: after.tokens
        problems := token.problem (.lexical fault offending) :: after.problems } := by
  simp only [scanText_eq scanner, skipBlanks_cons hblank, List.takeWhile_cons, hblank, hfeed, hc,
    hr, if_false, Bool.false_eq_true, Scanner.behind_nil]

end Steps

/-! ## The scanner at a line feed -/

theorem consumed_append_append {text rest : List Char} (h : rest <:+ text) (more : List Char) :
    consumed (text ++ more) (rest ++ more) = consumed text rest := by
  obtain ⟨front, rfl⟩ := h
  simp [consumed]

/-- What a line holds, in front of what is scanned behind it. -/
def ScannedLine.followedBy (held : ScannedLine) (stream : TokenStream) : TokenStream where
  tokens := held.tokens ++ stream.tokens
  problems := held.problem.toList ++ stream.problems
  comments := held.comment.toList ++ stream.comments

/-- Behind the rest of a line with these tokens. -/
def Scanner.behindLine (scanner : Scanner) (rest : List Char) (tokens : List Token) : Scanner :=
  { scanner.behind rest with seen := scanner.seen || !tokens.isEmpty }

theorem Scanner.behindLine_nil (scanner : Scanner) (rest : List Char) :
    scanner.behindLine rest [] = scanner.behind rest := by
  simp [behindLine, behind]

theorem Scanner.behindLine_cons (scanner : Scanner) (gap text next : List Char) (token : Token)
    (tokens : List Token) :
    scanner.behindLine (gap ++ (text ++ next)) (token :: tokens) =
      ((scanner.behind gap).behindToken text).behindLine next tokens := by
  simp [behindLine, behindToken, behind, Nat.add_assoc]

theorem Scanner.behindLine_singleton (scanner : Scanner) (gap text : List Char) (token : Token) :
    scanner.behindLine (gap ++ text) [token] = (scanner.behind gap).behindToken text := by
  simp [behindLine, behindToken, behind, Nat.add_assoc]

section Line

variable {more : List Char}

theorem AtLineEnd.lineOf_append (h : AtLineEnd more) {text : List Char} (hline : '\n' ∉ text) :
    lineOf (text ++ more) = text := by
  rw [lineOf, h.takeWhile_append (by rfl), List.takeWhile_eq_self_iff]
  intro c hc
  exact bne_iff_ne.mpr fun heq => hline (heq ▸ hc)

theorem AtLineEnd.skipLine_append (h : AtLineEnd more) {text : List Char} (hline : '\n' ∉ text) :
    skipLine (text ++ more) = more := by
  rw [skipLine, h.dropWhile_append (by rfl), List.dropWhile_eq_nil_iff.mpr, List.nil_append]
  intro c hc
  exact bne_iff_ne.mpr fun heq => hline (heq ▸ hc)

theorem not_mem_of_skipBlanks_eq {rest tail : List Char} {first : Char}
    (hs : skipBlanks rest = first :: tail) (hline : '\n' ∉ rest) : first ≠ '\n' ∧ '\n' ∉ tail := by
  have htext : '\n' ∉ first :: tail := fun hm => hline ((hs ▸ skipBlanks_suffix rest).mem hm)
  exact ⟨fun heq => htext (heq ▸ List.mem_cons_self), fun hm => htext (.tail _ hm)⟩

/-- A lexeme is read again if the text goes on behind its line. -/
theorem AtLineEnd.readLexeme_eq (h : AtLineEnd more) {first : Char} {tail next : List Char}
    {result : Except LexFault TokenKind} (hr : readLexeme first tail = (result, next)) :
    readLexeme first (tail ++ more) = (result, next ++ more) ∧
      consumed (first :: (tail ++ more)) (next ++ more) = consumed (first :: tail) next := by
  have hsuffix := (suffix_of_readLexeme hr).trans (List.suffix_cons first tail)
  rw [readLexeme_append h, hr, ← List.cons_append, consumed_append_append hsuffix]
  exact ⟨rfl, rfl⟩

/-- Up to its line feed a line is scanned as if nothing stood behind it. -/
theorem scanText_line (h : AtLineEnd more) (line : Nat) (seen : Bool) (start column : Nat)
    {rest : List Char} (hline : '\n' ∉ rest) :
    scanText ⟨start, line, column, seen⟩ (rest ++ more) =
      (scanRest line seen start column rest).followedBy
        (scanText (Scanner.behindLine ⟨start, line, column, seen⟩ rest
          (scanRest line seen start column rest).tokens) more) := by
  induction seen, start, column, rest using scanRest.induct line with
  | case1 seen start column rest hs =>
    have hall : ∀ c ∈ rest, isInlineBlank c := List.dropWhile_eq_nil_iff.mp hs
    rw [scanRest_blank hs, scanText_gap hall, Scanner.behindLine_nil]
    rfl
  | case2 seen start column rest first tail hs hc =>
    obtain ⟨hfeed, htail⟩ := not_mem_of_skipBlanks_eq hs hline
    have hblank := not_blank_of_skipBlanks_eq hs
    have hopens : opensComment first (tail ++ more) := by rwa [h.opensComment_append]
    rw [scanText_skip hs, scanText_comment hblank hfeed _ hopens, h.lineOf_append htail,
      h.skipLine_append htail, ← Scanner.behind_append, gap_append hs, scanRest_comment hs hc,
      Scanner.behindLine_nil]
    rfl
  | case3 seen start column rest gap _ _ first tail hs hc kind next hr text stop ih =>
    obtain ⟨hfeed, -⟩ := not_mem_of_skipBlanks_eq hs hline
    have hblank := not_blank_of_skipBlanks_eq hs
    have hopens : ¬ opensComment first (tail ++ more) := by rwa [h.opensComment_append]
    obtain ⟨hread, hconsumed⟩ := h.readLexeme_eq hr
    have hnext : '\n' ∉ next := fun hm => hline ((suffix_of_readLexeme_eq hs hr).mem hm)
    have ih : scanText ((Scanner.behind ⟨start, line, column, seen⟩ gap).behindToken text)
        (next ++ more) = _ := ih hnext
    have hbehind (token : Token) (tokens : List Token) :=
      Scanner.behindLine_cons ⟨start, line, column, seen⟩ gap text next token tokens
    simp only [(lexeme_append hs hr).1, gap, text] at hbehind
    rw [scanText_skip hs, scanText_token hblank hfeed _ hopens hread, hconsumed,
      scanRest_token hs hc hr]
    simp only [hbehind]
    rw [ih]
    rfl
  | case4 seen start column rest first tail hs hc fault next hr =>
    obtain ⟨hfeed, -⟩ := not_mem_of_skipBlanks_eq hs hline
    have hblank := not_blank_of_skipBlanks_eq hs
    have hopens : ¬ opensComment first (tail ++ more) := by rwa [h.opensComment_append]
    obtain ⟨hread, hconsumed⟩ := h.readLexeme_eq hr
    have hnext : '\n' ∉ next := fun hm => hline ((suffix_of_readLexeme_eq hs hr).mem hm)
    have hbehind (token : Token) := Scanner.behindLine_singleton ⟨start, line, column, seen⟩
      (rest.takeWhile isInlineBlank) (first :: tail) token
    simp only [gap_append hs] at hbehind
    -- the rest of the line belongs to the fault
    have hrest : consumed (first :: (tail ++ more)) more = first :: tail :=
      consumed_append_right (first :: tail) more
    rw [scanText_skip hs, scanText_fault hblank hfeed _ hopens hread, hconsumed,
      h.skipLine_append hnext, hrest, scanRest_fault hs hc hr]
    simp only [hbehind]
    rfl

end Line

/-! ## The scan line by line -/

/-- The last line of a source is scanned up to the end. -/
theorem scanText_last {text : List Char} (hline : '\n' ∉ text) (number start : Nat) :
    scanText ⟨start, number, 1, false⟩ text =
      (SourceLine.scan ⟨number, start, text, true⟩).followedBy
        ⟨[(Scanner.behind ⟨start, number, 1, false⟩ text).token .done []], [], []⟩ := by
  have hscan := scanText_line atLineEnd_nil number false start 1 hline
  rw [List.append_nil, scanText_nil] at hscan
  rw [hscan, SourceLine.scan, Bool.or_true, if_pos rfl]
  rfl

/-- Any other line is scanned up to its line feed, and the scanner starts anew behind it. -/
theorem scanText_complete {text : List Char} (hline : '\n' ∉ text) (number start : Nat)
    (rest : List Char) :
    scanText ⟨start, number, 1, false⟩ (text ++ '\n' :: rest) =
      (SourceLine.scan ⟨number, start, text, false⟩).followedBy
        (scanText ⟨start + byteLength text + 1, number + 1, 1, false⟩ rest) := by
  have hnewline (seen : Bool) :
      Scanner.token { Scanner.behind ⟨start, number, 1, false⟩ text with seen } .newline ['\n'] =
        SourceLine.newline ⟨number, start, text, false⟩ := by
    rw [SourceLine.newline, Nat.add_comm text.length]
    rfl
  rw [scanText_line (atLineEnd_newline rest) number false start 1 hline, scanText_newline,
    SourceLine.scan, Bool.or_false]
  -- The line feed is a token if the line has one.
  cases hempty : (scanRest number false start 1 text).tokens.isEmpty with
  | true =>
    simp only [Scanner.behindLine, hempty, Bool.not_true, Bool.or_false, Bool.false_eq_true,
      if_false, if_true]
    rfl
  | false =>
    simp only [Scanner.behindLine, hempty, Bool.not_false, Bool.or_true, Bool.false_eq_true,
      if_false, if_true, ScannedLine.followedBy, List.append_assoc, List.singleton_append,
      hnewline]
    rfl

/-- The end of a text with these lines. -/
def endOfLines (number start : Nat) (texts : List (List Char)) : Token :=
  let stop := start + byteLength (['\n'].intercalate texts)
  ⟨.done, ⟨stop, stop⟩, number + (texts.length - 1), (texts.getLastD []).length + 1⟩

theorem endToken_eq_endOfLines (source : List Char) :
    endToken source = endOfLines 1 0 (pieces source) := by
  have hlength : 0 < (pieces source).length := List.length_pos_iff.mpr (pieces_ne_nil source)
  have hcount : 1 + ((pieces source).length - 1) = (pieces source).length := by omega
  rw [endOfLines, hcount, intercalate_pieces, Nat.zero_add]
  rfl

theorem endOfLines_cons {texts : List (List Char)} (hne : texts ≠ []) (number start : Nat)
    (text : List Char) :
    endOfLines number start (text :: texts) =
      endOfLines (number + 1) (start + byteLength text + 1) texts := by
  have hlength : 0 < texts.length := List.length_pos_iff.mpr hne
  have hnumber : number + (texts.length + 1 - 1) = number + 1 + (texts.length - 1) := by omega
  have hlast : (text :: texts).getLastD [] = texts.getLastD [] := by
    obtain ⟨next, rest, rfl⟩ := List.exists_cons_of_ne_nil hne
    rfl
  have hfeed : '\n'.utf8Size = 1 := rfl
  simp only [endOfLines, intercalate_cons hne, byteLength_append, byteLength_cons, hfeed, hlast,
    List.length_cons, hnumber, Nat.add_assoc]

/-- A text is scanned line by line. -/
theorem scanText_numberLines {number start : Nat} {texts : List (List Char)} (hne : texts ≠ [])
    (hlines : ∀ text ∈ texts, '\n' ∉ text) :
    scanText ⟨start, number, 1, false⟩ (['\n'].intercalate texts) =
      (numberLines number start texts).foldr (fun line => line.scan.followedBy)
        ⟨[endOfLines number start texts], [], []⟩ := by
  fun_induction numberLines number start texts with
  | case1 => exact absurd rfl hne
  | case2 number start text =>
    have hend : (Scanner.behind ⟨start, number, 1, false⟩ text).token .done [] =
        endOfLines number start [text] := by
      simp [endOfLines, Scanner.token, Scanner.behind, Nat.add_comm]
    rw [List.intercalate_singleton, scanText_last (hlines text List.mem_cons_self), hend]
    rfl
  | case3 number start text rest hrest ih =>
    obtain ⟨htext, hlines⟩ := List.forall_mem_cons.mp hlines
    rw [intercalate_cons hrest, scanText_complete htext, ih hrest hlines, endOfLines_cons hrest]
    rfl

/-- What lines hold, put one behind the other. -/
theorem foldr_followedBy (lines : List SourceLine) (stream : TokenStream) :
    lines.foldr (fun line => line.scan.followedBy) stream =
      { tokens := (lines.flatMap fun line => line.scan.tokens) ++ stream.tokens
        problems := (lines.filterMap fun line => line.held.problem) ++ stream.problems
        comments := (lines.filterMap fun line => line.held.comment) ++ stream.comments } := by
  induction lines with
  | nil => rfl
  | cons line lines ih =>
    simp only [List.foldr_cons, ih, ScannedLine.followedBy, List.flatMap_cons, List.append_assoc,
      List.filterMap_eq_flatMap_toList, SourceLine.scan_problem, SourceLine.scan_comment]

/-- The scanner of a source agrees with the scan of its lines one by one. -/
theorem TokenStream.ofSource_eq_lines (source : String) :
    ofSource source =
      { tokens := ((sourceLines source.toList).flatMap fun line => line.scan.tokens) ++
          [endToken source.toList]
        problems := (sourceLines source.toList).filterMap fun line => line.held.problem
        comments := (sourceLines source.toList).filterMap fun line => line.held.comment } := by
  have hlines : ∀ text ∈ pieces source.toList, '\n' ∉ text := fun _ => not_mem_of_mem_pieces
  have hscan := @scanText_numberLines 1 0 _ (pieces_ne_nil source.toList) hlines
  rw [intercalate_pieces, foldr_followedBy, List.append_nil, List.append_nil,
    ← endToken_eq_endOfLines] at hscan
  exact hscan

end ResourceDecl
