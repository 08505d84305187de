import ResourceDecl.Proofs.Documents.Outcomes
import ResourceDecl.Proofs.Places.Coverage
import ResourceDecl.Proofs.Places.Fields

/-!
# Reported places

Tokens, problems, comments, declarations and fields have ranges that can be cut out of the source,
and the lines and columns that were counted while the source was read are those that a walk from
its beginning finds.

* `slice?`: the part of a text that a range covers.
* `Text.Span.Marks.slice?_eq`, `Text.Span.Marks.position?_start`: what a range that covers a part
  leads to.
* `Text.Span.LiesIn`, `Text.Span.liesIn_iff_marks`: ranges that can be cut out.
* `Document.problem_arisesIn`, `SourceLine.marks_of_comment`, `SourceLine.placed_of_statement?`:
  problems, comments and declarations.
* `places_are_right`: the result.
-/

namespace ResourceDecl

open Text

/-! ## Cutting a text at offsets -/

namespace Text

/-- Cut a text at an offset; there is no cut inside a character or behind the end. -/
def cutAt? : List Char → Nat → Option (List Char × List Char)
  | text, 0 => some ([], text)
  | [], _ + 1 => none
  | c :: text, offset + 1 =>
    if c.utf8Size ≤ offset + 1 then
      (cutAt? text (offset + 1 - c.utf8Size)).map fun cut => (c :: cut.1, cut.2)
    else
      none

/-- The part of a text that a range covers, unless an end of the range is no cut or the range is
inverted. -/
def slice? (text : List Char) (span : Span) : Option (List Char) := do
  let (_, behind) ← cutAt? text span.start
  if span.stop < span.start then none
  else
    let (part, _) ← cutAt? behind (span.stop - span.start)
    return part

/-- A walk over bytes passes the first character, and then has the others in front of it. -/
theorem exists_byteLength_cons (c : Char) (text : List Char) :
    ∃ n, byteLength (c :: text) = n + 1 ∧ c.utf8Size ≤ n + 1 ∧
      n + 1 - c.utf8Size = byteLength text := by
  obtain ⟨size, hsize⟩ := Nat.exists_eq_add_one.mpr c.utf8Size_pos
  refine ⟨size + byteLength text, ?_, by omega, by omega⟩
  rw [byteLength_cons, hsize, Nat.add_right_comm]

theorem cutAt?_append (before after : List Char) :
    cutAt? (before ++ after) (byteLength before) = some (before, after) := by
  induction before with
  | nil => simp [cutAt?]
  | cons c before ih =>
    obtain ⟨n, hlength, hsize, hrest⟩ := exists_byteLength_cons c before
    rw [List.cons_append, hlength, cutAt?, if_pos hsize, hrest, ih]
    rfl

theorem positionFrom?_append (p : Position) (before after : List Char) :
    positionFrom? p (before ++ after) (byteLength before) =
      some (before.foldl Position.advance p) := by
  induction before generalizing p with
  | nil => simp [positionFrom?]
  | cons c before ih =>
    obtain ⟨n, hlength, hsize, hrest⟩ := exists_byteLength_cons c before
    rw [List.cons_append, hlength, positionFrom?, if_pos hsize, hrest, ih]
    rfl

/-- The position of an offset is found by counting the characters in front of it. -/
theorem position?_append (before after : List Char) :
    position? (before ++ after) (byteLength before) =
      some (before.foldl Position.advance .first) :=
  positionFrom?_append _ _ _

/-- The offset stands between two characters or at an end of the text. -/
def IsBoundary (text : List Char) (offset : Nat) : Prop :=
  ∃ before after, text = before ++ after ∧ offset = byteLength before

/-- The offset stands between two characters of the line or at an end of it. -/
def OnLine (text : List Char) (line offset : Nat) : Prop :=
  IsBoundary text offset ∧ (position? text offset).map Position.line = some line

namespace Span

variable {span : Span} {text part : List Char} {place : Position}

theorem Marks.slice?_eq (h : span.Marks text place part) : slice? text span = some part := by
  obtain ⟨before, after, rfl, hstart, hstop, -⟩ := h
  have hlength : span.stop - span.start = byteLength part := by omega
  have hforward : ¬ span.stop < span.start := by omega
  simp [slice?, hstart ▸ cutAt?_append before (part ++ after), hforward, hlength, cutAt?_append]

theorem Marks.position?_start (h : span.Marks text place part) :
    position? text span.start = some place := by
  obtain ⟨before, after, rfl, hstart, -, hplace⟩ := h
  rw [hstart, position?_append, hplace]

theorem Marks.position?_stop (h : span.Marks text place part) :
    position? text span.stop = some (part.foldl Position.advance place) := by
  obtain ⟨before, after, rfl, hstart, hstop, hplace⟩ := h
  rw [hstop, hstart, ← byteLength_append, ← List.append_assoc, position?_append,
    List.foldl_append, hplace]

/-- The range lies in the text, and it does not cut a character. -/
structure LiesIn (span : Span) (text : List Char) : Prop where
  start_le_stop : span.start ≤ span.stop
  stop_le : span.stop ≤ byteLength text
  start_boundary : IsBoundary text span.start
  stop_boundary : IsBoundary text span.stop

theorem liesIn_of_boundaries (hle : span.start ≤ span.stop) (hstart : IsBoundary text span.start)
    (hstop : IsBoundary text span.stop) : span.LiesIn text := by
  refine ⟨hle, ?_, hstart, hstop⟩
  obtain ⟨before, after, rfl, heq⟩ := hstop
  rw [heq, byteLength_append]
  exact Nat.le_add_right _ _

/-- Ranges that lie in a text are those that cover a part of it. -/
theorem liesIn_iff_marks : span.LiesIn text ↔ ∃ place part, span.Marks text place part := by
  constructor
  · rintro ⟨hle, -, ⟨before, after, rfl, hstart⟩, ⟨longer, rest, heq, hstop⟩⟩
    rcases List.append_eq_append_iff.mp heq with ⟨part, rfl, rfl⟩ | ⟨part, rfl, rfl⟩
    · rw [byteLength_append, ← hstart] at hstop
      exact ⟨_, part, before, rest, rfl, hstart, hstop, rfl⟩
    · -- the range is empty
      rw [byteLength_append] at hstart
      obtain rfl : part = [] := eq_nil_of_byteLength (by omega)
      simp only [byteLength_nil, Nat.add_zero] at hstart
      exact ⟨_, [], longer, after, by simp, hstart, by simp [hstart, hstop], rfl⟩
  · rintro ⟨place, part, before, after, rfl, hstart, hstop, -⟩
    refine liesIn_of_boundaries (by omega) ⟨before, _, rfl, hstart⟩ ⟨before ++ part, after, ?_, ?_⟩
    · rw [List.append_assoc]
    · rw [hstop, hstart, byteLength_append]

theorem Marks.liesIn (h : span.Marks text place part) : span.LiesIn text :=
  liesIn_iff_marks.mpr ⟨place, part, h⟩

theorem Marks.onLine_start (h : span.Marks text place part) :
    OnLine text place.line span.start :=
  ⟨h.liesIn.start_boundary, by rw [h.position?_start, Option.map_some]⟩

theorem Marks.onLine_stop (h : span.Marks text place part) :
    OnLine text (part.foldl Position.advance place).line span.stop :=
  ⟨h.liesIn.stop_boundary, by rw [h.position?_stop, Option.map_some]⟩

/-- A range that lies in a text can be cut out, and both its ends have a position. -/
theorem LiesIn.sliced (h : span.LiesIn text) : (slice? text span).isSome ∧
    (position? text span.start).isSome ∧ (position? text span.stop).isSome := by
  obtain ⟨place, part, hmarks⟩ := liesIn_iff_marks.mp h
  rw [hmarks.slice?_eq, hmarks.position?_start, hmarks.position?_stop]
  exact ⟨rfl, rfl, rfl⟩

end Span

end Text

/-! ## Problems -/

/-- A problem of a source arises at one of its tokens. -/
theorem Document.problem_arisesIn {source : String} {problem : Problem}
    (h : problem ∈ (ofSource source).problems) :
    problem.ArisesIn (TokenStream.ofSource source).tokens := by
  rw [problems_eq_filterMap] at h
  obtain ⟨line, hline, hproblem⟩ := List.mem_filterMap.mp h
  have hne : line.held.tokens ≠ [] := by
    have hone := (line.one_outcome (endToken source.toList)).2
    rw [hproblem] at hone
    intro hnil
    simp [hnil] at hone
  have hscan := TokenStream.scan_subset hline
  apply (SourceLine.problem?_arisesIn hproblem).mono
  cases hlast : line.isLast with
  | true =>
    rw [SourceLine.run, if_pos hlast]
    rw [SourceLine.scan_tokens_of_last hlast] at hscan
    refine List.append_subset.mpr ⟨hscan, ?_⟩
    rw [TokenStream.tokens_ofSource]
    exact List.subset_append_right _ _
  | false =>
    rw [SourceLine.scan_tokens hne hlast] at hscan
    rwa [SourceLine.run, hlast]

/-! ## Comments -/

/-- A comment covers the part of the line that it was read from. -/
theorem scanRest_comment_covers {line : Nat} {seen : Bool} {start column : Nat}
    {rest : List Char} {comment : Comment}
    (h : (scanRest line seen start column rest).comment = some comment) :
    ∃ before after, rest = before ++ (comment.text.toList ++ after) ∧
      comment.span.start = start + byteLength before ∧
      comment.span.stop = comment.span.start + byteLength comment.text.toList := by
  induction seen, start, column, rest using scanRest.induct line with
  | case1 _ _ _ _ hs =>
    rw [scanRest_blank hs] at h
    cases h
  | case2 _ _ _ rest first tail hs hc =>
    rw [scanRest_comment hs hc] at h
    cases h
    refine ⟨_, trimmed (first :: tail), ?_, rfl, by simp⟩
    rw [String.toList_ofList, trimEnd_append, gap_append hs]
  | case3 seen start column rest gap _ _ first tail hs hc kind next hr text stop ih =>
    rw [scanRest_token hs hc hr] at h
    obtain ⟨before, after, hnext, hstart, hstop⟩ := ih h
    have hrest : gap ++ (text ++ next) = rest := (lexeme_append hs hr).1
    refine ⟨gap ++ (text ++ before), after, ?_, ?_, hstop⟩
    · rw [List.append_assoc, List.append_assoc, ← hnext, hrest]
    · rw [hstart, byteLength_append, byteLength_append, ← Nat.add_assoc, ← Nat.add_assoc]
  | case4 _ _ _ _ _ _ hs hc _ _ hr =>
    rw [scanRest_fault hs hc hr] at h
    cases h

namespace SourceLine

variable {text : List Char} {line : SourceLine}

/-- The range of a comment covers its text, on its line. -/
theorem marks_of_comment (h : line ∈ sourceLines text) {comment : Comment}
    (hc : line.held.comment = some comment) :
    ∃ column, comment.span.Marks text ⟨comment.line, column⟩ comment.text.toList := by
  have hfree := not_mem_of_mem_sourceLines h
  obtain ⟨before, after, htext, hstart, hstop⟩ := scanRest_comment_covers hc
  rw [(comment_spec hfree hc).2.1]
  exact ⟨_, (standsIn_of_mem_sourceLines h).marks hfree htext hstart hstop⟩

/-! ## Declarations -/

/-- Tokens of a line lie one behind the other. -/
theorem inOrder_held (line : SourceLine) : InOrder line.held.tokens := by
  have htiles := scanRest_tiles line.number false line.start 1 line.text
  constructor
  · intro token hm
    exact htiles.start_lt_stop _ (List.mem_append_left _ (List.mem_map_of_mem hm))
  · have hpairs := (List.pairwise_append.mp htiles.pairwise).1
    exact (List.pairwise_map.mp hpairs).imp fun h => h.2

/-- Both ends of a token of a line stand on the line. -/
theorem onLine_of_mem_held (h : line ∈ sourceLines text) {token : Token}
    (hm : token ∈ line.held.tokens) :
    OnLine text line.number token.span.start ∧ OnLine text line.number token.span.stop := by
  have hfree := not_mem_of_mem_sourceLines h
  obtain ⟨before, lexeme, after, htext, -, -, hstart, hstop, -⟩ :=
    scanRest_covers _ _ _ _ _ token hm
  have hmarks := (standsIn_of_mem_sourceLines h).marks hfree htext hstart hstop
  have hlexeme : '\n' ∉ lexeme := fun hm => hfree (by simp [htext, hm])
  refine ⟨hmarks.onLine_start, ?_⟩
  have hbehind := hmarks.onLine_stop
  rwa [foldl_advance_of_not_mem hlexeme] at hbehind

/-- So do both ends of a field that reaches over tokens of the line. -/
theorem onLine_of_covers (h : line ∈ sourceLines text) {field : Field} {tokens : List Token}
    (hsub : tokens ⊆ line.held.tokens) (hfield : field.Covers tokens) :
    OnLine text line.number field.span.start ∧ OnLine text line.number field.span.stop := by
  obtain ⟨first, hfirst, last, hlast, -, hspan⟩ := hfield
  rw [hspan]
  exact ⟨(onLine_of_mem_held h (hsub hfirst)).1, (onLine_of_mem_held h (hsub hlast)).2⟩

end SourceLine

/-- A declaration ends where its keyword or one of its fields does. -/
theorem stopOf_cases (opener : Token) (fields : List Field) :
    stopOf opener fields = opener.span.stop ∨
      ∃ field ∈ fields, stopOf opener fields = field.span.stop := by
  rw [stopOf]
  cases hlast : fields.getLast? with
  | none => exact .inl rfl
  | some field => exact .inr ⟨field, List.mem_of_getLast? hlast, rfl⟩

/-- The declaration and its fields stand where they say. -/
structure Statement.StandsIn (s : Statement) (text : List Char) (tokens : List Token) : Prop where
  lies : s.span.LiesIn text
  line : (position? text s.span.start).map Position.line = some s.line
  /-- From its keyword to the end of its last field. -/
  opener : ∃ opener ∈ tokens, opener.kind = .keyword s.keyword ∧ opener.line = s.line ∧
    s.span = ⟨opener.span.start, stopOf opener s.fields⟩
  fields_lie : ∀ field ∈ s.fields, field.span.LiesIn text ∧ field.span.start < field.span.stop
  fields_within : ∀ field ∈ s.fields,
    s.span.start ≤ field.span.start ∧ field.span.stop ≤ s.span.stop
  fields_follow : s.fields.Pairwise fun f g =>
    f.span.start < g.span.start ∧ f.span.stop ≤ g.span.start
  fields_line : ∀ field ∈ s.fields, ∀ offset ∈ [field.span.start, field.span.stop],
    (position? text offset).map Position.line = some s.line

theorem SourceLine.standsIn_of_statement? {text : List Char} {line : SourceLine} {s : Statement}
    (h : line ∈ sourceLines text) (hs : line.statement? = some s) :
    s.StandsIn text line.held.tokens := by
  obtain ⟨opener, tokens, htokens, hderives, hread⟩ :=
    derives_of_statement? hs
  have hsub : opener :: tokens ⊆ line.held.tokens := htokens ▸ List.Subset.refl _
  obtain ⟨hopener, hbehind⟩ := List.cons_subset.mp hsub
  have horder : InOrder (opener :: tokens) := htokens ▸ line.inOrder_held
  obtain ⟨hfirst, htail, -⟩ := inOrder_cons.mp horder
  obtain ⟨hcovers, hfollow⟩ := hderives.drawn htail
  have hwithin := hderives.within horder
  have hline : s.line = line.number := hderives.line.trans (hread opener List.mem_cons_self).2
  have hpart (field : Field) (hm : field ∈ s.fields) : field.span.start < field.span.stop :=
    (hcovers field hm).start_lt_stop htail
  have hfield (field : Field) (hm : field ∈ s.fields) :=
    onLine_of_covers h hbehind (hcovers field hm)
  obtain ⟨hstart, hend⟩ := onLine_of_mem_held h hopener
  have hstop : opener.span.start ≤ stopOf opener s.fields ∧
      OnLine text line.number (stopOf opener s.fields) := by
    rcases stopOf_cases opener s.fields with heq | ⟨field, hm, heq⟩
    · rw [heq]
      exact ⟨Nat.le_of_lt hfirst, hend⟩
    · rw [heq]
      have hleft := (hwithin field hm).1
      have hlt := hpart field hm
      exact ⟨by omega, (hfield field hm).2⟩
  refine ⟨?_, ?_, ⟨opener, hopener, hderives.keyword, hderives.line.symm, hderives.span⟩,
    fun field hm => ?_, fun field hm => ?_, ?_, fun field hm offset hoffset => ?_⟩
  · rw [hderives.span]
    exact Span.liesIn_of_boundaries hstop.1 hstart.1 hstop.2.1
  · rw [hderives.span, hline]
    exact hstart.2
  · obtain ⟨hleft, hright⟩ := hfield field hm
    have hlt := hpart field hm
    exact ⟨Span.liesIn_of_boundaries (Nat.le_of_lt hlt) hleft.1 hright.1, hlt⟩
  · obtain ⟨hleft, hright⟩ := hwithin field hm
    refine ⟨?_, hright⟩
    rw [hderives.span]
    exact Nat.le_of_lt (Nat.lt_of_lt_of_le hfirst hleft)
  · refine hfollow.imp_of_mem fun {f g} hf hg hle => ⟨?_, hle⟩
    exact Nat.lt_of_lt_of_le (hpart f hf) hle
  · obtain ⟨hleft, hright⟩ := hfield field hm
    rw [hline]
    rcases List.mem_pair.mp hoffset with rfl | rfl
    · exact hleft.2
    · exact hright.2

theorem Statement.StandsIn.mono {s : Statement} {text : List Char} {tokens others : List Token}
    (h : s.StandsIn text tokens) (hsub : tokens ⊆ others) : s.StandsIn text others := by
  obtain ⟨opener, hm, hopener⟩ := h.opener
  exact { h with opener := ⟨opener, hsub hm, hopener⟩ }

/-! ## Sources -/

/-- All ranges of a source can be cut out of it: those of tokens, problems, comments, declarations
and fields. The lines and columns that are kept beside them are the positions of their starts, a
comment has the text that its range covers, and a declaration reaches on one line from its keyword
to the end of its last field, with its fields one behind the other in between. -/
theorem places_are_right (source : String) :
    let text := source.toList
    let tokens := (TokenStream.ofSource source).tokens
    let document := Document.ofSource source
    (∀ token ∈ tokens, token.span.LiesIn text ∧
        position? text token.span.start = some ⟨token.line, token.column⟩) ∧
      (∀ problem ∈ document.problems, problem.span.LiesIn text ∧
        position? text problem.span.start = some ⟨problem.line, problem.column⟩) ∧
      (∀ comment ∈ document.comments, comment.span.LiesIn text ∧
        (position? text comment.span.start).map Position.line = some comment.line ∧
        slice? text comment.span = some comment.text.toList) ∧
      (∀ s ∈ document.program, s.StandsIn text tokens) ∧
      ∀ span : Span, span.LiesIn text → (slice? text span).isSome ∧
        (position? text span.start).isSome ∧ (position? text span.stop).isSome := by
  intro text tokens document
  have htokens (token : Token) (hm : token ∈ tokens) : token.span.LiesIn text ∧
      position? text token.span.start = some ⟨token.line, token.column⟩ := by
    obtain ⟨part, hmarks⟩ := TokenStream.marks_of_mem hm
    exact ⟨hmarks.liesIn, hmarks.position?_start⟩
  refine ⟨htokens, fun problem hm => ?_, fun comment hm => ?_, fun s hm => ?_,
    fun span hspan => hspan.sliced⟩
  · obtain ⟨token, htoken, cause, rfl⟩ := Document.problem_arisesIn hm
    exact htokens token htoken
  · obtain ⟨line, hline, hcomment⟩ := Document.exists_line_of_mem_comments hm
    obtain ⟨column, hmarks⟩ := SourceLine.marks_of_comment hline hcomment
    exact ⟨hmarks.liesIn, hmarks.onLine_start.2, hmarks.slice?_eq⟩
  · obtain ⟨line, hline, hs⟩ := Document.exists_line_of_mem_program hm
    have hheld : line.held.tokens ⊆ line.scan.tokens := fun _ => SourceLine.mem_scan_of_held
    exact (SourceLine.standsIn_of_statement? hline hs).mono
      (List.Subset.trans hheld (TokenStream.scan_subset hline))

end ResourceDecl
