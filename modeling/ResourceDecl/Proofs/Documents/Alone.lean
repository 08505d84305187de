import ResourceDecl.Proofs.Documents.Refusals
import ResourceDecl.Proofs.Places.Texts

/-!
# Texts that are read alone

A text on one line is a source, and whether it is read as a single token is a question about the
reader of lexemes (`read_alone_iff`). For texts that begin with a bracket the grammar of arrays
answers it:

* `arrays_read_exactly`: a text is read as a single array if and only if it is an array literal, in
  whose brackets any number of commas may stand behind a row. Of any other text a literal is read
  and more is left, or it has a lexical problem.
* `stray_comma_read`: a comma behind the last row is among those that are read.
-/

namespace ResourceDecl

open Text

/-! ## Sources of one line -/

theorem ofSource_of_not_mem {text : List Char} (h : '\n' ∉ text) :
    (TokenStream.ofSource (String.ofList text)).tokens =
        (scanRest 1 false 0 1 text).tokens ++ [endToken text] ∧
      (TokenStream.ofSource (String.ofList text)).problems =
        (scanRest 1 false 0 1 text).problem.toList := by
  have hlines : sourceLines (String.ofList text).toList = [⟨1, 0, text, true⟩] := by
    rw [String.toList_ofList]
    exact sourceLines_of_not_mem h
  constructor
  · rw [TokenStream.tokens_ofSource, hlines, List.flatMap_singleton,
      SourceLine.scan_tokens_of_last rfl, String.toList_ofList]
    rfl
  · rw [Document.problems_scanned, hlines, List.filterMap_cons, List.filterMap_nil]
    show _ = (SourceLine.held ⟨1, 0, text, true⟩).problem.toList
    cases (SourceLine.held ⟨1, 0, text, true⟩).problem <;> rfl

/-- A text holds tokens of these kinds, and nothing is wrong with it. -/
theorem kinds_iff_lexes {text : List Char} (h : '\n' ∉ text) {kinds : List TokenKind} :
    (TokenStream.ofSource (String.ofList text)).tokens.map Token.kind = kinds ++ [.done] ∧
        (TokenStream.ofSource (String.ofList text)).problems = [] ↔
      ∃ comment, Lexes text kinds comment := by
  obtain ⟨htokens, hproblems⟩ := ofSource_of_not_mem h
  rw [htokens, hproblems, List.map_append]
  constructor
  · rintro ⟨hkinds, hclean⟩
    rcases scanRest_cases 1 false 0 1 text with ⟨others, comment, hlexes⟩ | ⟨hfault, -⟩
    · have heq := (scanRest_of_lexes hlexes 1 false 0 1).kinds_eq
      rw [heq] at hkinds
      obtain rfl : others = kinds := List.append_cancel_right hkinds
      exact ⟨comment, hlexes⟩
    · exact absurd (Option.toList_eq_nil_iff.mp hclean) hfault
  · rintro ⟨comment, hlexes⟩
    obtain ⟨hkinds, -, -, hclean⟩ := scanRest_of_lexes hlexes 1 false 0 1
    rw [hkinds, hclean]
    exact ⟨rfl, rfl⟩

/-- A text is a single token if the reader of lexemes takes all of it. -/
theorem read_alone_iff {first : Char} {tail : List Char} {kind : TokenKind}
    (hline : '\n' ∉ first :: tail) (hblank : isInlineBlank first = false)
    (hcomment : opensComment first tail = false) :
    (TokenStream.ofSource (String.ofList (first :: tail))).tokens =
          [⟨kind, ⟨0, byteLength (first :: tail)⟩, 1, 1⟩, endToken (first :: tail)] ∧
        (TokenStream.ofSource (String.ofList (first :: tail))).problems = [] ↔
      readLexeme first tail = (.ok kind, []) := by
  obtain ⟨htokens, hproblems⟩ := ofSource_of_not_mem hline
  have hs : skipBlanks (first :: tail) = first :: tail := skipBlanks_cons hblank tail
  have hc : ¬ opensComment first tail := Bool.eq_false_iff.mp hcomment
  have hgap : (first :: tail).takeWhile isInlineBlank = [] := by simp [hblank]
  rw [htokens, hproblems]
  rcases hr : readLexeme first tail with ⟨fault | other, next⟩
  · rw [scanRest_fault hs hc hr]
    constructor
    · rintro ⟨-, hclean⟩
      cases hclean
    · intro heq
      cases heq
  · have hsplit := (lexeme_append hs hr).1
    rw [hgap, List.nil_append] at hsplit
    rw [scanRest_token hs hc hr, hgap]
    constructor
    · rintro ⟨heq, -⟩
      obtain ⟨hfirst, hrest⟩ := List.cons.inj heq
      have hlength : byteLength (consumed (first :: tail) next) = byteLength (first :: tail) := by
        simpa using congrArg (fun token : Token => token.span.stop) hfirst
      have hkind : other = kind := congrArg Token.kind hfirst
      have hwhole : byteLength (consumed (first :: tail) next) + byteLength next =
          byteLength (first :: tail) := by rw [← byteLength_append, hsplit]
      have hnext : next = [] := eq_nil_of_byteLength (by omega)
      rw [hkind, hnext]
    · intro heq
      cases heq
      rw [List.append_nil] at hsplit
      have hempty (stop column : Nat) : scanRest 1 true stop column [] = ⟨[], none, none⟩ :=
        scanRest_blank rfl
      simp [hsplit, hempty]

/-! ## Arrays -/

/-- A text that begins with a bracket is read as a single array, all of it, if and only if it is an
array literal with any number of commas behind the rows in brackets; so it is if commas separate
the rows. Otherwise an array literal stands in front and more behind it, or the text has a lexical
problem. -/
theorem arrays_read_exactly {tail : List Char} (hline : '\n' ∉ tail) :
    let text := '[' :: tail
    let stream := TokenStream.ofSource (String.ofList text)
    (∀ kind, stream.tokens = [⟨kind, ⟨0, byteLength text⟩, 1, 1⟩, endToken text] ∧
      stream.problems = [] ↔ ArrayLiteral .any text kind) ∧
    (∀ kind, ArrayLiteral .separating text kind →
      stream.tokens = [⟨kind, ⟨0, byteLength text⟩, 1, 1⟩, endToken text] ∧
        stream.problems = []) ∧
    ((∀ kind, ¬ ArrayLiteral .any text kind) →
      (∃ part rest kind, text = part ++ rest ∧ rest ≠ [] ∧ ArrayLiteral .any part kind) ∨
        ∃ problem, stream.problems = [problem] ∧ problem.cause.kind = .lexical) := by
  intro text stream
  have hfree : '\n' ∉ text := by simpa [text] using hline
  have hread (rest : List Char) : readLexeme '[' rest = readArray rest := by
    rw [readLexeme, if_neg (by decide), if_pos rfl]
  have hexact (kind : TokenKind) :
      stream.tokens = [⟨kind, ⟨0, byteLength text⟩, 1, 1⟩, endToken text] ∧
        stream.problems = [] ↔ ArrayLiteral .any text kind := by
    rw [read_alone_iff hfree rfl rfl, hread]
    constructor
    · intro harray
      obtain ⟨part, htail, hpart⟩ := arrayLiteral_of_readArray harray
      rw [List.append_nil] at htail
      rwa [← htail] at hpart
    · intro harray
      simpa using readArray_complete harray (stopsAt_nil _)
  refine ⟨hexact, fun kind hkind => (hexact kind).mpr hkind.any, fun hnone => ?_⟩
  rcases hr : readArray tail with ⟨fault | kind, next⟩
  · have hs : skipBlanks text = '[' :: tail := skipBlanks_cons rfl tail
    have hc : ¬ opensComment '[' tail := Bool.eq_false_iff.mp rfl
    refine .inr ?_
    rw [(ofSource_of_not_mem hfree).2, scanRest_fault hs hc ((hread tail).trans hr)]
    exact ⟨_, rfl, rfl⟩
  · obtain ⟨part, htail, hpart⟩ := arrayLiteral_of_readArray hr
    refine .inl ⟨'[' :: part, next, kind, by rw [List.cons_append, ← htail], ?_, hpart⟩
    rintro rfl
    rw [List.append_nil] at htail
    rw [← htail] at hpart
    exact hnone kind hpart

/-- Two rows in brackets with a comma between them. -/
theorem arrays_read_exactly_rows :
    let text := "[[1,2], [3]]".toList
    '\n' ∉ text.tail ∧
      (TokenStream.ofSource (String.ofList text)).tokens =
        [⟨.intRows [["1", "2"], ["3"]], ⟨0, 12⟩, 1, 1⟩, endToken text] ∧
      (TokenStream.ofSource (String.ofList text)).problems = [] := by
  intro text
  have hline : '\n' ∉ text.tail := by decide
  have hnumeral {d : Char} (hd : d.isDigit) (hne : d ≠ '0') : IsNumeral [d] :=
    ⟨_, .unsigned (.positive hd hne (.done _))⟩
  have hfirst : RowBehind "1,2]".toList [['1'], ['2']] :=
    .more blanks_nil (hnumeral rfl (by decide)) blanks_nil
      (.last blanks_nil (hnumeral rfl (by decide)) blanks_nil)
  have hsecond : RowBehind "3]".toList [['3']] :=
    .last blanks_nil (hnumeral rfl (by decide)) blanks_nil
  have hclose : ListBehind .separating [']'] [] :=
    @ListBehind.close _ [] (fun _ hc => by cases hc) rfl
  have hgap : Gap [',', ' '] := by simp [Gap, isInlineBlank]
  have hbehind : ListBehind .separating ", [3]]".toList [[['3']]] :=
    .row hgap (Nat.le_refl 1) (.brackets hsecond) hclose
  have hrows : ArrayLiteral .separating text (.intRows [["1", "2"], ["3"]]) :=
    .bracketed (.brackets blanks_nil (.brackets hfirst) hbehind)
  obtain ⟨-, hseparated, -⟩ := arrays_read_exactly hline
  exact ⟨hline, hseparated _ hrows⟩

/-- A comma behind the last row separates nothing, and still the array is read. -/
theorem stray_comma_read :
    let text := "[[1],]".toList
    (TokenStream.ofSource (String.ofList text)).tokens =
        [⟨.intRows [["1"]], ⟨0, 6⟩, 1, 1⟩, endToken text] ∧
      (TokenStream.ofSource (String.ofList text)).problems = [] ∧
      ∀ kind, ¬ ArrayLiteral .separating text kind := by
  intro text
  refine ⟨by decide +kernel, by decide +kernel, fun kind h => ?_⟩
  have hread : readArray "[1],]".toList = (.ok kind, []) :=
    readArray_complete h.any (stopsAt_nil _)
  have hrows : readArray "[1],]".toList = (.ok (.intRows [["1"]]), []) := by decide +kernel
  have hrow : readRow [] "1],]".toList = (.ok ["1"], [',', ']']) := by decide +kernel
  obtain rfl : kind = .intRows [["1"]] := by
    rw [hread] at hrows
    cases hrows
    rfl
  generalize hwhole : text = whole at h
  generalize hkind : TokenKind.intRows [["1"]] = kind at h
  cases h with
  | row => cases hkind
  | adjacent hadjacent hmany =>
    have hlength := congrArg List.length (TokenKind.intRows.inj hkind)
    rw [List.length_map] at hlength
    simp at hlength
    omega
  | bracketed hbracketed =>
    cases hbracketed with
    | @brackets before _ behind elements rows hbefore hfirst hbehind =>
      cases hfirst with
      | @brackets inner _ hinner =>
        -- the first row is read up to the comma
        have htail : "[1],]".toList = before ++ '[' :: (inner ++ behind) := (List.cons.inj hwhole).2
        have hskip := skipBlanks_append_cons hbefore (c := '[') rfl (inner ++ behind)
        rw [← htail] at hskip
        have hinside : "1],]".toList = inner ++ behind := (List.cons.inj hskip).2
        have hagain := readRow_complete hinner [] behind
        rw [← hinside, hrow] at hagain
        obtain rfl : behind = [',', ']'] := (Prod.mk.inj hagain).2.symm
        generalize hcomma : [',', ']'] = rest at hbehind
        cases hbehind with
        | @close gap _ hnone =>
          have hlast : [','] ++ [']'] = gap ++ [']'] := hcomma
          obtain rfl := List.append_cancel_right hlast
          cases hnone
        | row =>
          have hlength := congrArg List.length (TokenKind.intRows.inj hkind)
          simp at hlength

end ResourceDecl
