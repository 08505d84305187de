import ResourceDecl.Proofs.Documents.Streams
import ResourceDecl.Proofs.Places.Texts

/-!
# Strings of a source

Where the scanner starts to read at a quote, the string that begins there is read, its content is
kept as it is written, and it is a sort key or not by what it begins with. If no string begins
there, nothing else is read on the line.

* `Quotes`: a text begins with a string; `Quotes.unique`: it begins with one only.
* `Reaches`, `SourceLine.ReadsAt`: the scanner of a line starts to read a lexeme there;
  `ReadsAt.exists_of_mem_held`: it does so wherever a token starts.
* `Reaches.scanRest_eq`: by induction on the way there, what it finds from there on is what it would
  find if it began there.
* `ReadsAt.token_of_quotes`, `ReadsAt.token_of_fault`: the two outcomes at a quote.
* `strings_read_exactly`: the result.
-/

namespace ResourceDecl

open Text

/-! ## Texts that begin with a string -/

/-- The text begins with a string of this content, and the rest stands behind it. -/
structure Quotes (text content rest : List Char) : Prop where
  text_eq : text = '"' :: (content ++ '"' :: rest)
  isContent : IsContent content

namespace Quotes

variable {text tail content rest : List Char}

theorem append_eq (h : Quotes text content rest) :
    text = '"' :: (content ++ ['"']) ++ rest := by
  rw [h.text_eq, List.cons_append, List.append_assoc]
  rfl

theorem readLexeme_eq (h : Quotes ('"' :: tail) content rest) :
    readLexeme '"' tail = (.ok (.ofContent content), rest) := by
  obtain ⟨htext, hcontent⟩ := h
  obtain rfl : tail = content ++ '"' :: rest := (List.cons.inj htext).2
  rw [readLexeme, if_pos rfl, readString, readContent_complete hcontent]
  rfl

/-- A string ends at the first quote that can end it. -/
theorem unique {other others : List Char} (h : Quotes text content rest)
    (h' : Quotes text other others) : content = other ∧ rest = others := by
  obtain ⟨rfl, hcontent⟩ := h
  obtain ⟨htext, hother⟩ := h'
  have hread := readContent_complete hcontent [] rest
  rw [(List.cons.inj htext).2, readContent_complete hother] at hread
  simpa [eq_comm] using hread

end Quotes

/-- At a quote a string is read, or there is none. -/
theorem exists_quotes_or (tail : List Char) :
    (∃ content rest, Quotes ('"' :: tail) content rest) ∨
      (∀ content rest, ¬ Quotes ('"' :: tail) content rest) ∧
        ∃ fault next, readLexeme '"' tail = (.error fault, next) := by
  have hread : readLexeme '"' tail = (readContent [] tail).map TokenKind.ofContent := by
    rw [readLexeme, if_pos rfl, readString]
  rcases hr : readContent [] tail with ⟨fault | content, rest⟩
  · rw [hr] at hread
    refine .inr ⟨fun content rest h => ?_, fault, rest, hread⟩
    rw [h.readLexeme_eq] at hread
    cases hread
  · obtain ⟨body, hbody, -, rfl⟩ := readContent_sound hr
    exact .inl ⟨body, rest, rfl, hbody⟩

/-! ## Where the scanner starts to read -/

/-- Scanning the text gets to `rest`, and a lexeme is read there. -/
inductive Reaches : List Char → List Char → Prop
  | here {text tail : List Char} {first : Char} :
      skipBlanks text = first :: tail → ¬ opensComment first tail → Reaches text (first :: tail)
  | later {text tail next rest : List Char} {first : Char} {kind : TokenKind} :
      skipBlanks text = first :: tail → ¬ opensComment first tail →
        readLexeme first tail = (.ok kind, next) → Reaches next rest → Reaches text rest

/-- The scanned line with these tokens in front of its own. -/
def ScannedLine.behind (scanned : ScannedLine) (front : List Token) : ScannedLine :=
  { scanned with tokens := front ++ scanned.tokens }

section Reaching

variable {line start column : Nat} {seen : Bool} {text tail rest : List Char} {first : Char}

/-- Blanks in front of a lexeme move it, and nothing else. -/
theorem scanRest_gap (hs : skipBlanks text = first :: tail) (hc : ¬ opensComment first tail) :
    scanRest line seen start column text =
      scanRest line seen (start + byteLength (text.takeWhile isInlineBlank))
        (column + (text.takeWhile isInlineBlank).length) (first :: tail) := by
  have hblank := not_blank_of_skipBlanks_eq hs
  have hself := skipBlanks_cons hblank tail
  have hgap : (first :: tail).takeWhile isInlineBlank = [] := by simp [hblank]
  rcases hr : readLexeme first tail with ⟨fault | kind, next⟩
  · rw [scanRest_fault hs hc hr, scanRest_fault hself hc hr, hgap]
    rfl
  · rw [scanRest_token hs hc hr, scanRest_token hself hc hr, hgap]
    rfl

/-- What the scanner finds from a place on that it reaches, with the tokens in front of it. -/
theorem Reaches.scanRest_eq (h : Reaches text rest) (line : Nat) (seen : Bool)
    (start column : Nat) : ∃ before front seen', text = before ++ rest ∧
      scanRest line seen start column text =
        (scanRest line seen' (start + byteLength before) (column + before.length) rest).behind
          front := by
  induction h generalizing seen start column with
  | @here text tail first hs hc =>
    exact ⟨_, [], seen, (gap_append hs).symm, scanRest_gap hs hc⟩
  | @later text tail next rest first kind hs hc hr _ ih =>
    obtain ⟨htext, -⟩ := lexeme_append hs hr
    have htoken := @scanRest_token line start column seen _ _ _ _ _ hs hc hr
    obtain ⟨before, front, seen', rfl, hthere⟩ := ih true
      (start + byteLength (text.takeWhile isInlineBlank) +
        byteLength (consumed (first :: tail) next))
      (column + (text.takeWhile isInlineBlank).length + (consumed (first :: tail) next).length)
    dsimp only at htoken
    rw [hthere] at htoken
    simp only [Nat.add_assoc, ← byteLength_append, ← List.length_append] at htoken
    exact ⟨_, _ :: front, seen', by simpa using htext.symm, htoken⟩

/-- Every token starts where a lexeme is read. -/
theorem scanRest_reaches (line : Nat) (seen : Bool) (start column : Nat) (rest : List Char) :
    ∀ token ∈ (scanRest line seen start column rest).tokens, ∃ before after,
      rest = before ++ after ∧ Reaches rest after ∧
        token.span.start = start + byteLength before := by
  induction seen, start, column, rest using scanRest.induct line with
  | case1 _ _ _ _ hs =>
    rw [scanRest_blank hs]
    simp
  | case2 _ _ _ _ _ _ hs hc =>
    rw [scanRest_comment hs hc]
    simp
  | case3 seen start column rest gap _ _ first tail hs hc kind next hr text stop ih =>
    rw [scanRest_token hs hc hr]
    refine List.forall_mem_cons.mpr ⟨⟨gap, _, (gap_append hs).symm, .here hs hc, rfl⟩, ?_⟩
    intro token hm
    obtain ⟨before, after, hnext, hreaches, hstart⟩ := ih token hm
    obtain ⟨hrest, -⟩ := lexeme_append hs hr
    refine ⟨gap ++ (text ++ before), after, ?_, .later hs hc hr hreaches, ?_⟩
    · rw [List.append_assoc, List.append_assoc, ← hnext]
      exact hrest.symm
    · rw [hstart, byteLength_append, byteLength_append, ← Nat.add_assoc, ← Nat.add_assoc]
  | case4 _ _ _ rest first tail hs hc fault next hr =>
    rw [scanRest_fault hs hc hr, List.forall_mem_singleton]
    exact ⟨_, _, (gap_append hs).symm, .here hs hc, rfl⟩

end Reaching

/-! ## Reading at a quote -/

/-- The scanner of the line starts to read a lexeme behind the text in front. -/
structure SourceLine.ReadsAt (line : SourceLine) (source : String) (before rest : List Char) :
    Prop where
  mem : line ∈ sourceLines source.toList
  text_eq : line.text = before ++ rest
  reaches : Reaches line.text rest

namespace SourceLine.ReadsAt

variable {line : SourceLine} {source : String} {before tail content rest : List Char}

/-- There is such a place for every token of a line. -/
theorem exists_of_mem_held (hline : line ∈ sourceLines source.toList) {token : Token}
    (hm : token ∈ line.held.tokens) : ∃ before rest, line.ReadsAt source before rest ∧
      token.span.start = line.start + byteLength before := by
  obtain ⟨before, rest, htext, hreaches, hstart⟩ := scanRest_reaches _ _ _ _ _ token hm
  exact ⟨before, rest, ⟨hline, htext, hreaches⟩, hstart⟩

/-- What is found from there on is found in the source. -/
theorem exists_scanRest (h : line.ReadsAt source before rest) :
    ∃ seen column,
      let there := scanRest line.number seen (line.start + byteLength before) column rest
      there.tokens ⊆ (TokenStream.ofSource source).tokens ∧ line.held.problem = there.problem := by
  obtain ⟨other, front, seen, hother, hheld⟩ := h.reaches.scanRest_eq line.number false line.start 1
  obtain rfl := List.append_cancel_right (hother.symm.trans h.text_eq)
  have hproblem : line.held.problem = _ := congrArg ScannedLine.problem hheld
  refine ⟨seen, _, fun token hm => ?_, hproblem⟩
  apply TokenStream.scan_subset h.mem
  apply mem_scan_of_held
  rw [SourceLine.held, hheld]
  exact List.mem_append_right _ hm

theorem not_mem (h : line.ReadsAt source before ('"' :: tail)) : '\n' ∉ tail := by
  intro hm
  apply not_mem_of_mem_sourceLines h.mem
  rw [h.text_eq]
  exact List.mem_append_right _ (List.mem_cons_of_mem _ hm)

/-- A string that begins where the scanner starts to read is a token. -/
theorem token_of_quotes (h : line.ReadsAt source before ('"' :: tail))
    (hquotes : Quotes ('"' :: tail) content rest) :
    ∃ token ∈ (TokenStream.ofSource source).tokens, token.kind = .ofContent content ∧
      token.span = ⟨line.start + byteLength before,
        line.start + byteLength before + byteLength ('"' :: (content ++ ['"']))⟩ := by
  obtain ⟨seen, column, hsub, -⟩ := h.exists_scanRest
  have hself : skipBlanks ('"' :: tail) = '"' :: tail := skipBlanks_cons rfl tail
  have hopen : ¬ opensComment '"' tail := Bool.eq_false_iff.mp rfl
  have hconsumed : consumed ('"' :: tail) rest = '"' :: (content ++ ['"']) := by
    rw [hquotes.append_eq, consumed_append_right]
  rw [scanRest_token hself hopen hquotes.readLexeme_eq, hconsumed] at hsub
  exact ⟨_, hsub List.mem_cons_self, rfl, rfl⟩

/-- What begins with a quote and is no string covers the rest of the line. -/
theorem token_of_fault (h : line.ReadsAt source before ('"' :: tail)) {fault : LexFault}
    {next : List Char} (hr : readLexeme '"' tail = (.error fault, next)) :
    ∃ token ∈ (TokenStream.ofSource source).tokens, token.kind = .unreadable ∧
      token.line = line.number ∧ token.span = ⟨line.start + byteLength before, line.stop⟩ ∧
      ∃ problem, line.held.problem = some problem ∧ token.Faults problem := by
  obtain ⟨seen, column, hsub, hproblem⟩ := h.exists_scanRest
  have hself : skipBlanks ('"' :: tail) = '"' :: tail := skipBlanks_cons rfl tail
  have hopen : ¬ opensComment '"' tail := Bool.eq_false_iff.mp rfl
  have hstop : line.start + byteLength before + byteLength ('"' :: tail) = line.stop := by
    rw [stop, h.text_eq, byteLength_append, Nat.add_assoc]
  rw [scanRest_fault hself hopen hr] at hsub hproblem
  rw [← hstop]
  exact ⟨_, hsub List.mem_cons_self, rfl, rfl, rfl, _, hproblem, rfl, rfl, rfl, rfl⟩

/-- The token of a string carries what stands between the quotes. -/
theorem content_of_quotes (h : line.ReadsAt source before ('"' :: tail))
    (hquotes : Quotes ('"' :: tail) content rest) {token : Token}
    (hm : token ∈ (TokenStream.ofSource source).tokens)
    (hstart : token.span.start = line.start + byteLength before) :
    token.kind = .ofContent content ∧
      slice? source.toList token.span = some ('"' :: (content ++ ['"'])) := by
  obtain ⟨other, ho, hkind, hspan⟩ := h.token_of_quotes hquotes
  obtain rfl := TokenStream.start_inj hm ho (by rw [hstart, hspan])
  have htext := h.text_eq
  rw [hquotes.append_eq] at htext
  have hmarks := (standsIn_of_mem_sourceLines h.mem).marks (not_mem_of_mem_sourceLines h.mem) htext
    hstart (by rw [hspan])
  exact ⟨hkind, hmarks.slice?_eq⟩

/-- The tokens of strings that start at a quote are those of the strings that begin there. -/
theorem exists_token_iff (h : line.ReadsAt source before ('"' :: tail)) (n : Nat) :
    (∃ token ∈ (TokenStream.ofSource source).tokens,
      token.span = ⟨line.start + byteLength before, line.start + byteLength before + n⟩ ∧
        token.kind.content?.isSome) ↔
      ∃ content rest, Quotes ('"' :: tail) content rest ∧
        n = byteLength ('"' :: (content ++ ['"'])) := by
  constructor
  · rintro ⟨token, hm, hspan, hcontent⟩
    rcases exists_quotes_or tail with ⟨content, rest, hquotes⟩ | ⟨-, fault, next, hr⟩
    · obtain ⟨other, ho, -, hother⟩ := h.token_of_quotes hquotes
      obtain rfl := TokenStream.start_inj hm ho (by rw [hspan, hother])
      rw [hspan] at hother
      exact ⟨content, rest, hquotes, Nat.add_left_cancel (congrArg Span.stop hother)⟩
    · obtain ⟨other, ho, hkind, -, hother, -⟩ := h.token_of_fault hr
      obtain rfl := TokenStream.start_inj hm ho (by rw [hspan, hother])
      rw [hkind] at hcontent
      cases hcontent
  · rintro ⟨content, rest, hquotes, rfl⟩
    obtain ⟨token, hm, hkind, hspan⟩ := h.token_of_quotes hquotes
    refine ⟨token, hm, hspan, ?_⟩
    rw [hkind, TokenKind.content?_ofContent]
    rfl

/-- Where no string begins at a quote, one token and one problem stand for the rest of the line. -/
theorem fault_of_not_quotes (h : line.ReadsAt source before ('"' :: tail))
    (hnone : ∀ content rest, ¬ Quotes ('"' :: tail) content rest) :
    ∃ token problem, (unreadables (TokenStream.ofSource source).tokens).filter
        (fun t => t.line == line.number) = [token] ∧
      (TokenStream.ofSource source).problems.filter (fun p => p.line == line.number) = [problem] ∧
      token.span = ⟨line.start + byteLength before, line.stop⟩ ∧
      slice? source.toList token.span = some ('"' :: tail) ∧ token.Faults problem := by
  rcases exists_quotes_or tail with ⟨content, rest, hquotes⟩ | ⟨-, fault, next, hr⟩
  · exact absurd hquotes (hnone content rest)
  · obtain ⟨token, hm, hkind, hnumber, hspan, problem, hproblem, hfaults⟩ := h.token_of_fault hr
    have hunreadable : token ∈ unreadables (TokenStream.ofSource source).tokens := by
      simp [unreadables, hm, hkind]
    have hstop : line.stop = line.start + byteLength before + byteLength ('"' :: tail) := by
      rw [stop, h.text_eq, byteLength_append, ← Nat.add_assoc]
    have htext := h.text_eq
    rw [← List.append_nil ('"' :: tail)] at htext
    have hmarks := (standsIn_of_mem_sourceLines h.mem).marks (not_mem_of_mem_sourceLines h.mem)
      htext (congrArg Span.start hspan) (by rw [hspan, hstop])
    refine ⟨token, problem, ?_, TokenStream.filter_problems h.mem hproblem, hspan,
      hmarks.slice?_eq, hfaults⟩
    rw [← hnumber]
    exact filter_eq_singleton (TokenStream.pairwise_unreadables source) hunreadable

end SourceLine.ReadsAt

/-! ## Strings of a source -/

/-- Where the scanner starts to read at a quote, a token of a string covers the bytes up to another
one exactly if they are a string, of which there is one at most. The token carries what stands
between the quotes, and it is a sort key if that begins with the mark and goes on behind it. If no
string begins there, the rest of the line is unreadable, and nothing else is wrong with the line. -/
theorem strings_read_exactly {source : String} {line : SourceLine} {before tail : List Char}
    (h : line.ReadsAt source before ('"' :: tail)) :
    let stream := TokenStream.ofSource source
    let start := line.start + byteLength before
    (∀ n, (∃ token ∈ stream.tokens,
        token.span = ⟨start, start + n⟩ ∧ token.kind.content?.isSome) ↔
      ∃ content rest, Quotes ('"' :: tail) content rest ∧
        n = byteLength ('"' :: (content ++ ['"']))) ∧
    (∀ content rest, Quotes ('"' :: tail) content rest →
      (∀ other others, Quotes ('"' :: tail) other others → content = other ∧ rest = others) ∧
      ∀ token ∈ stream.tokens, token.span.start = start →
        slice? source.toList token.span = some ('"' :: (content ++ ['"'])) ∧
        token.kind.content? = some (String.ofList content) ∧
        ((∃ key, token.kind = .sortKey key) ↔
          ∃ c key, content = sortKeyMark.toList ++ c :: key)) ∧
    ((∀ content rest, ¬ Quotes ('"' :: tail) content rest) →
      ∃ token problem,
        (unreadables stream.tokens).filter (fun t => t.line == line.number) = [token] ∧
        stream.problems.filter (fun p => p.line == line.number) = [problem] ∧
        token.span = ⟨start, line.stop⟩ ∧
        slice? source.toList token.span = some ('"' :: tail) ∧
        token.Faults problem) := by
  refine ⟨h.exists_token_iff, fun content rest hquotes => ⟨fun _ _ => hquotes.unique, ?_⟩,
    h.fault_of_not_quotes⟩
  intro token hm hstart
  obtain ⟨hkind, hslice⟩ := h.content_of_quotes hquotes hm hstart
  rw [hkind]
  exact ⟨hslice, TokenKind.content?_ofContent content, TokenKind.exists_ofContent_eq_sortKey_iff⟩

/-- A sort key, and behind it a quote that no other one closes, since that one is escaped. -/
theorem strings_read_exactly_sortKey :
    let source := "\"sortby:size\" \"a\\\""
    let line : SourceLine := ⟨1, 0, source.toList, true⟩
    let stream := TokenStream.ofSource source
    line.ReadsAt source [] ('"' :: "sortby:size\" \"a\\\"".toList) ∧
      line.ReadsAt source "\"sortby:size\" ".toList ('"' :: "a\\\"".toList) ∧
      (∃ token ∈ stream.tokens, token.kind.content? = some "sortby:size" ∧
        ∃ key, token.kind = .sortKey key) ∧
      ∃ token problem,
        (unreadables stream.tokens).filter (fun t => t.line == 1) = [token] ∧
        stream.problems.filter (fun p => p.line == 1) = [problem] ∧
        slice? source.toList token.span = some "\"a\\\"".toList := by
  intro source line stream
  have hline : line ∈ sourceLines source.toList := by decide +kernel
  have hread : readLexeme '"' "sortby:size\" \"a\\\"".toList =
      (.ok (.sortKey "size"), " \"a\\\"".toList) := by decide +kernel
  have hopen : readLexeme '"' "a\\\"".toList = (.error .unterminatedString, []) := by decide +kernel
  have hstart : skipBlanks source.toList = '"' :: "sortby:size\" \"a\\\"".toList := by
    decide +kernel
  have hgap : skipBlanks " \"a\\\"".toList = '"' :: "a\\\"".toList := by decide +kernel
  have hfirst : line.ReadsAt source [] ('"' :: "sortby:size\" \"a\\\"".toList) :=
    ⟨hline, by decide +kernel, .here hstart (by decide)⟩
  have hsecond : line.ReadsAt source "\"sortby:size\" ".toList ('"' :: "a\\\"".toList) :=
    ⟨hline, by decide +kernel, .later hstart (by decide) hread (.here hgap (by decide))⟩
  obtain ⟨hiff, hkind, -⟩ := strings_read_exactly hfirst
  obtain ⟨-, -, hfault⟩ := strings_read_exactly hsecond
  have hquotes : Quotes ('"' :: "sortby:size\" \"a\\\"".toList) "sortby:size".toList
      " \"a\\\"".toList := by
    have hcontent : readContent [] "sortby:size\" \"a\\\"".toList =
        (.ok "sortby:size".toList, " \"a\\\"".toList) := by decide +kernel
    obtain ⟨body, hbody, hsame, htext⟩ := readContent_sound hcontent
    obtain rfl : _ = body := hsame
    exact ⟨congrArg _ htext, hbody⟩
  have hnone (content rest : List Char) : ¬ Quotes ('"' :: "a\\\"".toList) content rest := by
    intro h
    have hlexeme := h.readLexeme_eq
    rw [hopen] at hlexeme
    cases hlexeme
  obtain ⟨token, hm, hspan, -⟩ := (hiff _).mpr ⟨_, _, hquotes, rfl⟩
  obtain ⟨-, hcontent, hsort⟩ := (hkind _ _ hquotes).2 token hm (congrArg Span.start hspan)
  obtain ⟨fault, problem, hone, hproblem, -, hslice, -⟩ := hfault hnone
  exact ⟨hfirst, hsecond, ⟨token, hm, hcontent, hsort.mpr ⟨'s', "ize".toList, by decide +kernel⟩⟩,
    fault, problem, hone, hproblem, hslice⟩

end ResourceDecl
