import Mathlib.Data.List.Chain
import ResourceDecl.Proofs.Documents.Outcomes
import ResourceDecl.Proofs.Places.Positions

/-!
# Shape of a token stream

The tokens of a source fall into rows: each row holds the tokens of one line and ends in the line
feed of that line, and the end of the source ends the last row. What may stand directly behind a
token is a relation of two tokens (`Token.Precedes`), so that a stream is a chain of it.

* `ScannedLine.Ends`, `scanRest_ends`: a line is read to its end, or its last token covers what
  could not be read.
* `SourceLine.isRow_run`: the step, a line is a row.
* `TokenStream.exists_rows`: the rows of a source are the lines that carry tokens, and the last one.
* `isChain_rows`: by induction over the rows, what stands behind what.
* `forall₂_problems`: unreadable tokens and lexical problems in pairs.
* `TokenStream.wellFormed_ofSource`: the result.
-/

namespace ResourceDecl

open Text

/-! ## The end of a line -/

/-- All tokens of the line could be read, or the last one is for what could not, reaches up to
`stop` and is what the problem of the line is about. -/
inductive ScannedLine.Ends (stop : Nat) : ScannedLine → Prop
  | read {tokens : List Token} {comment : Option Comment} :
      (∀ token ∈ tokens, token.kind ≠ .unreadable) → Ends stop ⟨tokens, comment, none⟩
  | fault {front : List Token} {token : Token} {fault : LexFault} {offending : String} :
      (∀ other ∈ front, other.kind ≠ .unreadable) → token.kind = .unreadable →
        token.span.stop = stop →
        Ends stop ⟨front ++ [token], none, some (token.problem (.lexical fault offending))⟩

theorem ScannedLine.Ends.cons {stop : Nat} {scanned : ScannedLine} {token : Token}
    (htoken : token.kind ≠ .unreadable) (h : scanned.Ends stop) :
    ScannedLine.Ends stop { scanned with tokens := token :: scanned.tokens } := by
  cases h with
  | read hread => exact .read (List.forall_mem_cons.mpr ⟨htoken, hread⟩)
  | @fault front last _ _ hfront hlast hstop =>
    exact @fault _ (token :: front) last _ _ (List.forall_mem_cons.mpr ⟨htoken, hfront⟩) hlast hstop

/-- Whatever a line holds, it is read up to its end. -/
theorem scanRest_ends (line : Nat) (seen : Bool) (start column : Nat) (rest : List Char) :
    (scanRest line seen start column rest).Ends (start + byteLength rest) := by
  induction seen, start, column, rest using scanRest.induct line with
  | case1 _ _ _ _ hs =>
    rw [scanRest_blank hs]
    exact .read (by simp)
  | case2 _ _ _ _ _ _ hs hc =>
    rw [scanRest_comment hs hc]
    exact .read (by simp)
  | case3 seen start column rest gap _ _ first tail hs hc kind next hr text stop ih =>
    have hread : kind ≠ .unreadable := by
      rintro rfl
      exact readLexeme_lexed hr
    have hstop : start + byteLength rest = stop + byteLength next := by
      rw [← (lexeme_append hs hr).1, byteLength_append, byteLength_append, ← Nat.add_assoc,
        ← Nat.add_assoc]
    rw [scanRest_token hs hc hr, hstop]
    exact ih.cons hread
  | case4 _ start _ rest first tail hs hc fault next hr =>
    rw [scanRest_fault hs hc hr]
    refine @ScannedLine.Ends.fault _ [] _ _ _ (List.forall_mem_nil _) rfl ?_
    show start + byteLength _ + byteLength (first :: tail) = start + byteLength rest
    rw [Nat.add_assoc, ← byteLength_append, gap_append hs]

/-! ## Rows -/

/-- What may stand directly behind a token: behind a newline no other one, and behind an unreadable
token the token that ends its line, which begins where the unreadable one ends. -/
structure Token.Precedes (a b : Token) : Prop where
  newline : a.kind = .newline → b.kind ≠ .newline
  unreadable : a.kind = .unreadable →
    b.kind.isTerminator ∧ b.line = a.line ∧ b.span.start = a.span.stop

/-- All tokens of a run. -/
def Run.all (run : Run) : List Token :=
  run.tokens ++ [run.terminator]

/-- The tokens of the run stand on the line of the token that ends it, and each of them may stand
behind the one in front of it. -/
structure Run.IsRow (run : Run) : Prop where
  inside : ∀ token ∈ run.tokens,
    token.kind.isTerminator = false ∧ token.line = run.terminator.line
  chain : run.all.IsChain Token.Precedes

theorem isTerminator_eq_false_iff {kind : TokenKind} :
    kind.isTerminator = false ↔ kind ≠ .newline ∧ kind ≠ .done := by
  simp [TokenKind.isTerminator]

/-- Nothing is asked of what stands behind a token that was read. -/
theorem isChain_append_of_read {front rest : List Token}
    (h : ∀ token ∈ front, token.kind ≠ .newline ∧ token.kind ≠ .unreadable)
    (hrest : rest.IsChain Token.Precedes) : (front ++ rest).IsChain Token.Precedes := by
  induction front with
  | nil => exact hrest
  | cons token front ih =>
    obtain ⟨⟨hnewline, hread⟩, hfront⟩ := List.forall_mem_cons.mp h
    rw [List.cons_append, List.isChain_cons]
    exact ⟨fun _ _ => ⟨fun hk => absurd hk hnewline, fun hk => absurd hk hread⟩, ih hfront⟩

namespace SourceLine

variable {text : List Char} {line : SourceLine}

theorem ends (line : SourceLine) : line.held.Ends line.stop :=
  scanRest_ends _ _ _ _ _

/-- The token that ends a line stands on it, behind its last character. -/
theorem place_terminator (h : line ∈ sourceLines text) :
    let terminator := (line.run (endToken text)).terminator
    terminator.kind.isTerminator ∧ terminator.line = line.number ∧
      terminator.span.start = line.stop := by
  rw [run]
  cases hlast : line.isLast with
  | true =>
    rw [if_pos rfl]
    exact ⟨rfl, endToken_of_last h hlast⟩
  | false =>
    rw [if_neg Bool.false_ne_true]
    exact ⟨rfl, rfl, rfl⟩

/-- A line is a row. -/
theorem isRow_run (h : line ∈ sourceLines text) : (line.run (endToken text)).IsRow := by
  have hheld : ∀ token ∈ line.held.tokens,
      (token.kind.Lexed ∨ token.kind = .unreadable) ∧ token.line = line.number :=
    scanRest_tokens _ _ _ _ _
  obtain ⟨hterminator, hnumber, hstart⟩ := place_terminator h
  constructor
  · intro token hm
    obtain ⟨hkind, htoken⟩ := hheld token hm
    rw [hnumber]
    exact ⟨isTerminator_eq_false_iff.mpr (TokenKind.not_terminator hkind), htoken⟩
  · show (line.held.tokens ++ [_]).IsChain Token.Precedes
    have hends := line.ends
    generalize line.held = scanned at hheld hends
    have hnewline : ∀ token ∈ scanned.tokens, token.kind ≠ .newline := fun token hm =>
      (TokenKind.not_terminator (hheld token hm).1).1
    cases hends with
    | read hread =>
      exact isChain_append_of_read (fun token hm => ⟨hnewline token hm, hread token hm⟩)
        (List.isChain_singleton _)
    | @fault front token _ _ hfront hkind hstop =>
      have htoken : token.line = line.number := (hheld token (by simp)).2
      rw [List.append_assoc]
      apply isChain_append_of_read
      · exact fun other hm => ⟨hnewline other (List.mem_append_left _ hm), hfront other hm⟩
      · refine List.isChain_pair.mpr ⟨fun hk => absurd hk (hnewline token (by simp)), fun _ => ?_⟩
        rw [hnumber, hstart, htoken, hstop]
        exact ⟨hterminator, rfl, rfl⟩

end SourceLine

/-! ## The rows of a source -/

/-- A row that has tokens, or that the end of the source ends, does not begin with a newline. -/
theorem Run.IsRow.head? {run : Run} (h : run.IsRow)
    (hrun : run.tokens ≠ [] ∨ run.terminator.kind = .done) (rest : List Token) :
    ∀ token ∈ (run.all ++ rest).head?, token.kind ≠ .newline := by
  obtain ⟨tokens, terminator⟩ := run
  intro token hm
  cases tokens with
  | nil =>
    obtain rfl : terminator = token := by simpa [all] using hm
    rw [hrun.resolve_left fun hne => hne rfl]
    decide
  | cons opener tokens =>
    obtain rfl : opener = token := by simpa [all] using hm
    exact (isTerminator_eq_false_iff.mp (h.inside opener List.mem_cons_self).1).1

section Rows

variable {rows : List Run} {last : Run}

theorem head?_rows (hrows : ∀ run ∈ rows, run.tokens ≠ [])
    (hinside : ∀ run ∈ rows ++ [last], run.IsRow) (hlast : last.terminator.kind = .done) :
    ∀ token ∈ ((rows ++ [last]).flatMap Run.all).head?, token.kind ≠ .newline := by
  cases rows with
  | nil =>
    rw [List.nil_append, List.flatMap_cons]
    exact (hinside last List.mem_cons_self).head? (.inr hlast) _
  | cons run rows =>
    rw [List.cons_append, List.flatMap_cons]
    exact (hinside run List.mem_cons_self).head? (.inl (hrows run List.mem_cons_self)) _

/-- Rows that end in newlines stand one behind the other. -/
theorem isChain_rows (hrows : ∀ run ∈ rows, run.tokens ≠ [] ∧ run.terminator.kind = .newline)
    (hinside : ∀ run ∈ rows ++ [last], run.IsRow) (hlast : last.terminator.kind = .done) :
    ((rows ++ [last]).flatMap Run.all).IsChain Token.Precedes := by
  induction rows with
  | nil => simpa using (hinside last (by simp)).chain
  | cons run rows ih =>
    obtain ⟨⟨-, hnewline⟩, hrest⟩ := List.forall_mem_cons.mp hrows
    obtain ⟨hrun, hbehind⟩ := List.forall_mem_cons.mp hinside
    rw [List.cons_append, List.flatMap_cons, List.isChain_append]
    refine ⟨hrun.chain, ih hrest hbehind, fun terminator ht next hn => ?_⟩
    obtain rfl : run.terminator = terminator := by simpa [Run.all] using ht
    have hnext := head?_rows (fun run hm => (hrest run hm).1) hbehind hlast next hn
    refine ⟨fun _ => hnext, fun hk => ?_⟩
    rw [hnewline] at hk
    cases hk

end Rows

/-- Lines without tokens leave nothing behind. -/
theorem flatMap_scan {lines : List SourceLine} (final : Token)
    (h : ∀ line ∈ lines, line.isLast = false) :
    (lines.flatMap fun line => line.scan.tokens) =
      (lines.filter fun line => !line.held.tokens.isEmpty).flatMap fun line =>
        (line.run final).all := by
  induction lines with
  | nil => rfl
  | cons line lines ih =>
    obtain ⟨hline, hrest⟩ := List.forall_mem_cons.mp h
    rw [List.flatMap_cons, ih hrest]
    by_cases hempty : line.held.tokens = []
    · rw [SourceLine.scan_tokens_of_nil hempty, List.filter_cons_of_neg (by simp [hempty]),
        List.nil_append]
    · rw [SourceLine.scan_tokens hempty hline, List.filter_cons_of_pos (by simp [hempty]),
        List.flatMap_cons]
      simp [Run.all, SourceLine.run, hline]

namespace TokenStream

/-- The tokens of a source are those of its lines that carry tokens, and those of the last line. -/
theorem exists_carrying (source : String) :
    ∃ front last, (front ++ [last]).Sublist (sourceLines source.toList) ∧ last.isLast = true ∧
      (∀ line ∈ front, line.isLast = false ∧ line.held.tokens ≠ []) ∧
      (ofSource source).tokens =
        ((front ++ [last]).map (SourceLine.run (endToken source.toList))).flatMap Run.all := by
  obtain ⟨front, last, hlines, hlast, hfront⟩ := sourceLines_eq_append source.toList
  refine ⟨front.filter fun line => !line.held.tokens.isEmpty, last, ?_, hlast, ?_, ?_⟩
  · rw [hlines]
    exact List.filter_sublist.append_right _
  · intro line hm
    obtain ⟨hm, hcarries⟩ := List.mem_filter.mp hm
    exact ⟨hfront line hm, by simpa using hcarries⟩
  · rw [tokens_ofSource, hlines, List.flatMap_append, flatMap_scan (endToken source.toList) hfront,
      List.flatMap_map, List.flatMap_append, List.flatMap_singleton, List.flatMap_singleton,
      SourceLine.scan_tokens_of_last hlast, List.append_assoc]
    simp [Run.all, SourceLine.run, hlast]

/-- The tokens of a source fall into rows that line feeds end, and a last row that its end does. -/
theorem exists_rows (source : String) :
    ∃ (rows : List Run) (last : Run), (ofSource source).tokens = (rows ++ [last]).flatMap Run.all ∧
      (∀ run ∈ rows, run.tokens ≠ [] ∧ run.terminator.kind = .newline ∧
        run.terminator.span.Marks source.toList
          ⟨run.terminator.line, run.terminator.column⟩ ['\n']) ∧
      last.terminator.kind = .done ∧ (∀ run ∈ rows ++ [last], run.IsRow) ∧
      (rows ++ [last]).Pairwise fun a b => a.terminator.line < b.terminator.line := by
  obtain ⟨front, last, hsub, hlast, hfront, htokens⟩ := exists_carrying source
  have hlines {line : SourceLine} (hm : line ∈ front ++ [last]) :
      line ∈ sourceLines source.toList := hsub.subset hm
  refine ⟨front.map (SourceLine.run (endToken source.toList)),
    last.run (endToken source.toList), ?_, ?_, ?_, ?_, ?_⟩
  · rw [htokens, List.map_append, List.map_singleton]
  · rw [List.forall_mem_map]
    intro line hm
    obtain ⟨hnot, hcarries⟩ := hfront line hm
    have hmarks := SourceLine.marks_newline (hlines (List.mem_append_left _ hm)) hnot
    rw [SourceLine.run, hnot]
    exact ⟨hcarries, rfl, hmarks⟩
  · rw [SourceLine.run, if_pos hlast]
    rfl
  · rw [← List.map_singleton, ← List.map_append, List.forall_mem_map]
    exact fun line hm => SourceLine.isRow_run (hlines hm)
  · rw [← List.map_singleton, ← List.map_append, List.pairwise_map]
    refine ((pairwise_number_sourceLines source.toList).sublist hsub).imp_of_mem ?_
    intro a b ha hb hlt
    obtain ⟨-, hanumber, -⟩ := SourceLine.place_terminator (hlines ha)
    obtain ⟨-, hbnumber, -⟩ := SourceLine.place_terminator (hlines hb)
    rwa [hanumber, hbnumber]

end TokenStream

/-! ## Unreadable tokens -/

/-- The problem is lexical, and it is about what stands at the token. -/
structure Token.Faults (token : Token) (problem : Problem) : Prop where
  kind_eq : problem.cause.kind = .lexical
  start_eq : problem.span.start = token.span.start
  line_eq : problem.line = token.line
  column_eq : problem.column = token.column

/-- The tokens that stand for what could not be read. -/
def unreadables (tokens : List Token) : List Token :=
  tokens.filter fun token => token.kind == .unreadable

theorem unreadables_eq_nil {tokens : List Token} (h : ∀ token ∈ tokens, token.kind ≠ .unreadable) :
    unreadables tokens = [] := by
  rw [unreadables, List.filter_eq_nil_iff]
  simpa using h

theorem ScannedLine.Ends.forall₂ {stop : Nat} {scanned : ScannedLine} (h : scanned.Ends stop) :
    List.Forall₂ Token.Faults (unreadables scanned.tokens) scanned.problem.toList := by
  cases h with
  | read hread =>
    rw [unreadables_eq_nil hread]
    exact .nil
  | @fault front token _ _ hfront hkind _ =>
    have hnone := unreadables_eq_nil hfront
    unfold unreadables at hnone ⊢
    rw [List.filter_append, hnone, List.nil_append, List.filter_cons_of_pos (by simp [hkind]),
      List.filter_nil]
    exact .cons ⟨rfl, rfl, rfl, rfl⟩ .nil

theorem unreadables_scan (line : SourceLine) :
    unreadables line.scan.tokens = unreadables line.held.tokens := by
  have hending : unreadables line.ending = [] := by
    apply unreadables_eq_nil
    intro token hm
    rw [SourceLine.ending] at hm
    split at hm
    · cases hm
    · rw [List.mem_singleton.mp hm]
      intro hk
      cases hk
  unfold unreadables at hending ⊢
  rw [SourceLine.scan_tokens_eq, List.filter_append, hending, List.append_nil]

namespace TokenStream

/-- Unreadable tokens and lexical problems come in pairs, in the order of the source. -/
theorem forall₂_problems (source : String) :
    List.Forall₂ Token.Faults (unreadables (ofSource source).tokens)
      (ofSource source).problems := by
  have hlines (lines : List SourceLine) :
      List.Forall₂ Token.Faults (lines.flatMap fun line => unreadables line.held.tokens)
        (lines.flatMap fun line => line.held.problem.toList) := by
    induction lines with
    | nil => exact .nil
    | cons line lines ih =>
      rw [List.flatMap_cons, List.flatMap_cons]
      exact List.rel_append line.ends.forall₂ ih
  have hend : unreadables [endToken source.toList] = [] := rfl
  have hscan : (fun line : SourceLine => unreadables line.scan.tokens) =
      fun line => unreadables line.held.tokens := funext unreadables_scan
  have hall := hlines (sourceLines source.toList)
  rw [← hscan] at hall
  rw [Document.problems_scanned, List.filterMap_eq_flatMap_toList, tokens_ofSource]
  unfold unreadables at hend hall ⊢
  rwa [List.filter_append, hend, List.append_nil, List.filter_flatMap]

/-- No line has two unreadable tokens. -/
theorem pairwise_unreadables (source : String) :
    (unreadables (ofSource source).tokens).Pairwise fun a b => a.line < b.line := by
  have hsame : List.Forall₂ (· = ·) ((unreadables (ofSource source).tokens).map Token.line)
      ((ofSource source).problems.map Problem.line) := by
    rw [List.forall₂_map_left_iff, List.forall₂_map_right_iff]
    exact (forall₂_problems source).imp fun _ _ h => h.line_eq.symm
  rw [List.forall₂_eq_eq_eq] at hsame
  have hproblems := List.pairwise_map.mpr (pairwise_problems source)
  rw [← hsame] at hproblems
  exact List.pairwise_map.mp hproblems

end TokenStream

/-! ## Comments -/

/-- A comment is not empty, and it stands behind the tokens of its line. -/
theorem SourceLine.place_of_comment {line : SourceLine} {c : Comment}
    (h : line.held.comment = some c) : c.span.start < c.span.stop ∧
      ∀ token ∈ line.held.tokens, token.span.stop ≤ c.span.start := by
  have htiles : Tiles line.start line.text (line.held.tokens.map Token.span ++
      line.held.comment.toList.map Comment.span) := scanRest_tiles _ _ _ _ _
  have hm : c.span ∈ line.held.comment.toList.map Comment.span := by simp [h]
  obtain ⟨-, -, hbehind⟩ := List.pairwise_append.mp htiles.pairwise
  exact ⟨htiles.start_lt_stop _ (List.mem_append_right _ hm),
    fun token ht => (hbehind _ (List.mem_map_of_mem ht) c.span hm).2⟩

/-- A comment is trailing if a token stands in front of it on its line, and only then. -/
theorem TokenStream.trailing_iff_behind {source : String} {c : Comment}
    (h : c ∈ (ofSource source).comments) :
    c.trailing = true ↔ ∃ token ∈ (ofSource source).tokens,
      token.line = c.line ∧ token.span.stop ≤ c.span.start := by
  obtain ⟨line, hline, hc⟩ := Document.exists_line_of_mem_comments h
  obtain ⟨-, hnumber, htrailing⟩ := SourceLine.comment_spec (not_mem_of_mem_sourceLines hline) hc
  rw [htrailing, hnumber]
  constructor
  · intro hsome
    obtain ⟨token, hm⟩ := List.exists_mem_of_ne_nil line.held.tokens (by simpa using hsome)
    have hon := (scanRest_tokens _ _ _ _ _ token hm).2
    exact ⟨token, scan_subset hline (SourceLine.mem_scan_of_held hm), hon,
      (SourceLine.place_of_comment hc).2 token hm⟩
  · rintro ⟨token, hm, hon, hstop⟩
    rcases mem_tokens_iff.mp hm with ⟨other, hother, hscan⟩ | rfl
    · have hnumber := SourceLine.line_of_mem_scan hscan
      obtain rfl := Document.eq_of_number_eq hother hline (hnumber.symm.trans hon)
      by_cases hempty : other.held.tokens = []
      · rw [SourceLine.scan_tokens_of_nil hempty] at hscan
        cases hscan
      · simpa using hempty
    · -- a comment ends in front of the end of the source, and it is not empty
      obtain ⟨column, before, after, htext, hstart, hends, -⟩ :=
        SourceLine.marks_of_comment hline hc
      have hlt := (SourceLine.place_of_comment hc).1
      have hlength := congrArg byteLength htext
      have hend : byteLength source.toList ≤ c.span.start := hstop
      rw [byteLength_append, byteLength_append] at hlength
      omega

/-! ## The shape of a stream -/

/-- The shape of the tokens that were read from a text. -/
structure TokenStream.WellFormed (stream : TokenStream) (text : List Char) : Prop where
  /-- The end of the text is the last token, and no other one. -/
  done_last : ∃ front last, stream.tokens = front ++ [last] ∧ last.kind = .done ∧
    last.span = ⟨byteLength text, byteLength text⟩ ∧ ∀ token ∈ front, token.kind ≠ .done
  begins : ∀ token ∈ stream.tokens.head?, token.kind ≠ .newline
  newlines_apart : stream.tokens.IsChain fun a b => ¬ (a.kind = .newline ∧ b.kind = .newline)
  /-- Each newline is the line feed of its line and ends the tokens of that line, of which there is
  one at least; the end of the text ends the others. -/
  rows : ∃ (rows : List Run) (last : Run), stream.tokens = (rows ++ [last]).flatMap Run.all ∧
    (∀ run ∈ rows, run.tokens ≠ [] ∧ run.terminator.kind = .newline ∧
      run.terminator.span.Marks text ⟨run.terminator.line, run.terminator.column⟩ ['\n']) ∧
    last.terminator.kind = .done ∧
    (∀ run ∈ rows ++ [last], ∀ token ∈ run.tokens,
      token.kind.isTerminator = false ∧ token.line = run.terminator.line) ∧
    (rows ++ [last]).Pairwise fun a b => a.terminator.line < b.terminator.line
  faults : List.Forall₂ Token.Faults (unreadables stream.tokens) stream.problems
  /-- Directly behind an unreadable token, and where it ends, the token stands that ends its
  line. -/
  fault_last : ∀ front token behind, stream.tokens = front ++ token :: behind →
    token.kind = .unreadable → ∃ next rest, behind = next :: rest ∧
      next.kind.isTerminator ∧ next.line = token.line ∧ next.span.start = token.span.stop
  one_fault : (unreadables stream.tokens).Pairwise fun a b => a.line < b.line
  trailing : ∀ c ∈ stream.comments, c.trailing = true ↔
    ∃ token ∈ stream.tokens, token.line = c.line ∧ token.span.stop ≤ c.span.start

/-- Whatever a source holds, its tokens have this shape. -/
theorem TokenStream.wellFormed_ofSource (source : String) :
    (ofSource source).WellFormed source.toList := by
  obtain ⟨rows, last, htokens, hrows, hdone, hinside, hpairs⟩ := exists_rows source
  have hchain := isChain_rows (fun run hm => ⟨(hrows run hm).1, (hrows run hm).2.1⟩) hinside hdone
  rw [← htokens] at hchain
  constructor
  case done_last => exact ⟨_, _, tokens_ofSource source, rfl, rfl, ne_done_of_mem_lines⟩
  case begins =>
    rw [htokens]
    exact head?_rows (fun run hm => (hrows run hm).1) hinside hdone
  case newlines_apart => exact hchain.imp fun _ _ h hboth => h.newline hboth.1 hboth.2
  case rows =>
    exact ⟨rows, last, htokens, hrows, hdone, fun run hm => (hinside run hm).inside, hpairs⟩
  case faults => exact forall₂_problems source
  case fault_last =>
    intro front token behind heq hk
    rw [heq] at hchain
    cases behind with
    | nil =>
      -- the last token is the end of the source
      rw [tokens_ofSource] at heq
      rw [← List.singleton_inj.mp (List.append_inj_right' heq rfl)] at hk
      cases hk
    | cons next rest =>
      have hnext := (List.isChain_append_cons_cons.mp hchain).2.1
      exact ⟨next, rest, rfl, hnext.unreadable hk⟩
  case one_fault => exact pairwise_unreadables source
  case trailing => exact fun c hc => trailing_iff_behind hc

end ResourceDecl
