import ResourceDecl.Proofs.Documents.Lines

/-!
# Where lines and tokens stand

Numbers, offsets and columns are counted up while a source is read; here they are said of the
source alone.

* `SourceLine.StandsIn`, `standsIn_of_mem_sourceLines`: a line has the number and the offset that
  the text in front of it gives.
* `pairwise_sourceLines`: a line ends in front of the line feed behind which the next one begins.
* `Token.Covers`, `scanRest_covers`: a token covers the part of its line that it was read from.
* `Text.Span.Marks`: a range covers a part of the text, and the part begins at a position.
* `TokenStream.marks_of_mem`, `TokenStream.standsIn_of_mem`: the same of all tokens of a source.
-/

namespace ResourceDecl

open Text

/-! ## Lines -/

theorem line_foldl_advance (p : Position) (text : List Char) :
    (text.foldl Position.advance p).line = p.line + text.count '\n' := by
  induction text generalizing p with
  | nil => rfl
  | cons c text ih =>
    rw [List.foldl_cons, ih, Position.advance, List.count_cons]
    by_cases hc : c = '\n'
    · simp [hc]
      omega
    · simp [hc]

/-- On one line the column counts the characters. -/
theorem foldl_advance_of_not_mem {text : List Char} (h : '\n' ∉ text) (line column : Nat) :
    text.foldl Position.advance ⟨line, column⟩ = ⟨line, column + text.length⟩ := by
  induction text generalizing column with
  | nil => rfl
  | cons c text ih =>
    obtain ⟨hc, htext⟩ : '\n' ≠ c ∧ '\n' ∉ text := by simpa using h
    rw [List.foldl_cons, Position.advance, if_neg hc.symm, ih htext, List.length_cons,
      Nat.add_right_comm, Nat.add_assoc]

/-- Characters counted one by one lead to where the last line ends. -/
theorem foldl_advance_endOfLines {texts : List (List Char)} (hne : texts ≠ [])
    (hlines : ∀ text ∈ texts, '\n' ∉ text) (number start : Nat) :
    (['\n'].intercalate texts).foldl Position.advance ⟨number, 1⟩ =
      ⟨(endOfLines number start texts).line, (endOfLines number start texts).column⟩ := by
  fun_induction numberLines number start texts with
  | case1 => exact absurd rfl hne
  | case2 number start text =>
    rw [List.intercalate_singleton, foldl_advance_of_not_mem (hlines text List.mem_cons_self),
      Nat.add_comm 1]
    rfl
  | case3 number start text rest hrest ih =>
    obtain ⟨htext, hlines⟩ := List.forall_mem_cons.mp hlines
    rw [intercalate_cons hrest, List.foldl_append, foldl_advance_of_not_mem htext,
      List.foldl_cons, endOfLines_cons hrest, ← ih hrest hlines]
    rfl

theorem foldl_advance_eq_endToken (text : List Char) :
    text.foldl Position.advance .first = ⟨(endToken text).line, (endToken text).column⟩ := by
  have hlines : ∀ line ∈ pieces text, '\n' ∉ line := fun _ => not_mem_of_mem_pieces
  have hplace := foldl_advance_endOfLines (pieces_ne_nil text) hlines 1 0
  rwa [intercalate_pieces, ← endToken_eq_endOfLines] at hplace

/-- The line is a part of the text, between line feeds or an end, and what is in front of it gives
its offset and its number. -/
def SourceLine.StandsIn (line : SourceLine) (text : List Char) : Prop :=
  ∃ before after, text = before ++ (line.text ++ after) ∧ line.start = byteLength before ∧
    before.foldl Position.advance .first = ⟨line.number, 1⟩ ∧
    (line.isLast = true ∧ after = [] ∨ line.isLast = false ∧ ∃ rest, after = '\n' :: rest)

theorem standsIn_numberLines {number start : Nat} {texts : List (List Char)} (before : List Char)
    (hstart : start = byteLength before)
    (hnumber : before.foldl Position.advance .first = ⟨number, 1⟩)
    (hlines : ∀ text ∈ texts, '\n' ∉ text) :
    ∀ line ∈ numberLines number start texts,
      line.StandsIn (before ++ ['\n'].intercalate texts) := by
  fun_induction numberLines number start texts generalizing before with
  | case1 => simp
  | case2 number start text =>
    intro line hm
    rw [List.mem_singleton.mp hm]
    exact ⟨before, [], by simp, hstart, hnumber, .inl ⟨rfl, rfl⟩⟩
  | case3 number start text rest hrest ih =>
    obtain ⟨htext, hlines⟩ := List.forall_mem_cons.mp hlines
    have hnext : (before ++ (text ++ ['\n'])).foldl Position.advance .first =
        ⟨number + 1, 1⟩ := by
      rw [List.foldl_append, List.foldl_append, hnumber, foldl_advance_of_not_mem htext]
      rfl
    intro line hm
    rcases List.mem_cons.mp hm with rfl | hm
    · exact ⟨before, _, by rw [intercalate_cons hrest], hstart, hnumber, .inr ⟨rfl, _, rfl⟩⟩
    · have hbehind := ih (before ++ (text ++ ['\n'])) (by simp [hstart]; rfl) hnext hlines line hm
      rw [intercalate_cons hrest]
      simpa using hbehind

theorem standsIn_of_mem_sourceLines {text : List Char} {line : SourceLine}
    (h : line ∈ sourceLines text) : line.StandsIn text := by
  have hlines : ∀ piece ∈ pieces text, '\n' ∉ piece := fun _ => not_mem_of_mem_pieces
  have hstands := standsIn_numberLines [] rfl rfl hlines line h
  rwa [intercalate_pieces, List.nil_append] at hstands

theorem start_le_of_mem_numberLines {number start : Nat} {texts : List (List Char)} :
    ∀ line ∈ numberLines number start texts, start ≤ line.start := by
  fun_induction numberLines number start texts with
  | case1 => simp
  | case2 => simp
  | case3 number start text rest _ ih =>
    refine List.forall_mem_cons.mpr ⟨Nat.le_refl _, fun line hm => ?_⟩
    have hle := ih line hm
    omega

/-- Lines follow one another, each behind the line feed of the one in front. -/
theorem pairwise_sourceLines (text : List Char) :
    (sourceLines text).Pairwise fun a b => a.number < b.number ∧ a.stop < b.start := by
  have hstops (number start : Nat) (texts : List (List Char)) :
      (numberLines number start texts).Pairwise fun a b => a.stop < b.start := by
    fun_induction numberLines number start texts with
    | case1 => exact .nil
    | case2 => exact List.pairwise_singleton _ _
    | case3 number start text rest _ ih =>
      exact .cons (fun line hm => Nat.lt_of_succ_le (start_le_of_mem_numberLines line hm)) ih
  exact (pairwise_number_sourceLines text).and (hstops 1 0 (pieces text))

/-! ## Tokens of a line -/

/-- The token covers a part of a text that begins on this line, at this offset and column. -/
def Token.Covers (token : Token) (line start column : Nat) (text : List Char) : Prop :=
  ∃ before lexeme after, text = before ++ (lexeme ++ after) ∧ lexeme ≠ [] ∧ token.line = line ∧
    token.span.start = start + byteLength before ∧
    token.span.stop = token.span.start + byteLength lexeme ∧
    token.column = column + before.length

/-- A token that covers a part of what is left covers that part of the whole. -/
theorem Token.Covers.behind {token : Token} {line start column : Nat} {front text : List Char}
    (h : token.Covers line (start + byteLength front) (column + front.length) text) :
    token.Covers line start column (front ++ text) := by
  obtain ⟨before, lexeme, after, rfl, hne, hline, hstart, hstop, hcolumn⟩ := h
  refine ⟨front ++ before, lexeme, after, by simp, hne, hline, ?_, hstop, ?_⟩
  · rw [hstart, byteLength_append, Nat.add_assoc]
  · rw [hcolumn, List.length_append, Nat.add_assoc]

theorem scanRest_covers (line : Nat) (seen : Bool) (start column : Nat) (rest : List Char) :
    ∀ token ∈ (scanRest line seen start column rest).tokens,
      token.Covers line start column rest := by
  induction seen, start, column, rest using scanRest.induct line with
  | case1 _ _ _ _ hs =>
    rw [scanRest_blank hs]
    simp
  | case2 _ _ _ _ _ _ hs hc =>
    rw [scanRest_comment hs hc]
    simp
  | case3 seen start column rest gap _ _ first tail hs hc kind next hr text stop ih =>
    obtain ⟨hrest, hne⟩ := lexeme_append hs hr
    rw [scanRest_token hs hc hr]
    refine List.forall_mem_cons.mpr ⟨?_, fun token hm => ?_⟩
    · exact ⟨gap, text, next, hrest.symm, hne, rfl, rfl, rfl, rfl⟩
    · rw [← hrest]
      exact (ih token hm).behind.behind
  | case4 seen start column rest first tail hs hc fault next hr =>
    rw [scanRest_fault hs hc hr]
    intro token hm
    rw [List.mem_singleton.mp hm]
    exact ⟨_, first :: tail, [], by rw [List.append_nil, gap_append hs], by simp, rfl, rfl, rfl,
      rfl⟩

theorem SourceLine.bounds_of_mem_held {line : SourceLine} {token : Token}
    (h : token ∈ line.held.tokens) :
    line.start ≤ token.span.start ∧ token.span.start ≤ line.stop := by
  obtain ⟨before, lexeme, after, htext, -, -, hstart, -⟩ := scanRest_covers _ _ _ _ _ token h
  rw [stop, htext, byteLength_append, hstart]
  omega

/-! ## Tokens of a source -/

/-- The range covers this part of the text, and the part begins at this position. -/
def Text.Span.Marks (span : Span) (text : List Char) (place : Position) (part : List Char) :
    Prop :=
  ∃ before after, text = before ++ (part ++ after) ∧ span.start = byteLength before ∧
    span.stop = span.start + byteLength part ∧ before.foldl Position.advance .first = place

/-- A part of a line is a part of the source, on that line. -/
theorem SourceLine.StandsIn.marks {line : SourceLine} {text : List Char} (h : line.StandsIn text)
    {before part after : List Char} (hline : '\n' ∉ line.text)
    (htext : line.text = before ++ (part ++ after)) {span : Span}
    (hstart : span.start = line.start + byteLength before)
    (hstop : span.stop = span.start + byteLength part) :
    span.Marks text ⟨line.number, 1 + before.length⟩ part := by
  obtain ⟨front, behind, rfl, hfront, hnumber, -⟩ := h
  have hfree : '\n' ∉ before := fun hm => hline (htext ▸ List.mem_append_left _ hm)
  refine ⟨front ++ before, after ++ behind, by simp [htext], ?_, hstop, ?_⟩
  · rw [hstart, hfront, byteLength_append]
  · rw [List.foldl_append, hnumber, foldl_advance_of_not_mem hfree]

/-- What is in front of the token gives its offset and its line. -/
def Token.StandsIn (token : Token) (text : List Char) : Prop :=
  ∃ before after, text = before ++ after ∧ token.span.start = byteLength before ∧
    token.line = before.count '\n' + 1

theorem line_endToken (text : List Char) : (endToken text).line = text.count '\n' + 1 :=
  length_pieces text

/-- The last line ends where the source does. -/
theorem SourceLine.endToken_of_last {text : List Char} {line : SourceLine}
    (h : line ∈ sourceLines text) (hlast : line.isLast) :
    (endToken text).line = line.number ∧ (endToken text).span.start = line.stop := by
  have hfree := not_mem_of_mem_sourceLines h
  obtain ⟨before, after, htext, hstart, hnumber, ⟨-, rfl⟩ | ⟨hnot, -⟩⟩ :=
    standsIn_of_mem_sourceLines h
  · rw [List.append_nil] at htext
    constructor
    · have hplace := foldl_advance_eq_endToken (before ++ line.text)
      rw [List.foldl_append, hnumber, foldl_advance_of_not_mem hfree, ← htext] at hplace
      exact (congrArg Position.line hplace).symm
    · show byteLength text = _
      rw [stop, htext, byteLength_append, hstart]
  · rw [hlast] at hnot
    cases hnot

/-- The newline of a line is the line feed behind it. -/
theorem SourceLine.marks_newline {text : List Char} {line : SourceLine}
    (h : line ∈ sourceLines text) (hlast : line.isLast = false) :
    line.newline.span.Marks text ⟨line.newline.line, line.newline.column⟩ ['\n'] := by
  have hfree := not_mem_of_mem_sourceLines h
  obtain ⟨before, after, htext, hstart, hnumber, ⟨hnot, -⟩ | ⟨-, rest, rfl⟩⟩ :=
    standsIn_of_mem_sourceLines h
  · rw [hlast] at hnot
    cases hnot
  · refine ⟨before ++ line.text, rest, by simp [htext], ?_, rfl, ?_⟩
    · show line.stop = _
      rw [stop, hstart, byteLength_append]
    · rw [List.foldl_append, hnumber, foldl_advance_of_not_mem hfree, Nat.add_comm 1]
      rfl

/-- A token of a line is a part of the line, or it is the line feed behind it. -/
theorem SourceLine.marks_of_mem_scan {text : List Char} {line : SourceLine}
    (h : line ∈ sourceLines text) {token : Token} (hm : token ∈ line.scan.tokens) :
    ∃ part, token.span.Marks text ⟨token.line, token.column⟩ part := by
  have hheld (hm : token ∈ line.held.tokens) :
      ∃ part, token.span.Marks text ⟨token.line, token.column⟩ part := by
    obtain ⟨before, lexeme, after, htext, -, hline, hstart, hstop, hcolumn⟩ :=
      scanRest_covers _ _ _ _ _ token hm
    rw [hline, hcolumn]
    have hfree := not_mem_of_mem_sourceLines h
    exact ⟨lexeme, (standsIn_of_mem_sourceLines h).marks hfree htext hstart hstop⟩
  cases hlast : line.isLast with
  | true =>
    rw [scan_tokens_of_last hlast] at hm
    exact hheld hm
  | false =>
    rcases mem_held_or_eq hm with hm | rfl
    · exact hheld hm
    · exact ⟨_, marks_newline h hlast⟩

namespace TokenStream

variable {source : String} {token : Token}

/-- Every token of a source covers a part of it and has the position at which the part begins. -/
theorem marks_of_mem (h : token ∈ (ofSource source).tokens) :
    ∃ part, token.span.Marks source.toList ⟨token.line, token.column⟩ part := by
  rcases mem_tokens_iff.mp h with ⟨line, hline, hm⟩ | rfl
  · exact SourceLine.marks_of_mem_scan hline hm
  · exact ⟨[], source.toList, [], by simp, rfl, rfl, foldl_advance_eq_endToken _⟩

/-- Every token of a source has the offset and the line at which it stands. -/
theorem standsIn_of_mem (h : token ∈ (ofSource source).tokens) :
    token.StandsIn source.toList := by
  obtain ⟨part, before, after, htext, hstart, -, hplace⟩ := marks_of_mem h
  refine ⟨before, part ++ after, htext, hstart, ?_⟩
  have hline : (before.foldl Position.advance .first).line = token.line := by rw [hplace]
  rw [← hline, line_foldl_advance, Nat.add_comm]
  rfl

end TokenStream

end ResourceDecl
