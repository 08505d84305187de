import Mathlib.Data.List.Nodup
import ResourceDecl.Proofs.Documents.Lines
import ResourceDecl.Proofs.Statements.Printed

/-!
# Documents from rows

Both ways between a source and its lines:

* `Document.wellFormed_of_mem_program`, `Document.isComment_of_mem_comments`: what a source gives,
  be it valid or not;
* `Document.pairwise_program`, `Document.pairwise_comments`: at most one of each to a line, in the
  order of the lines;
* `Document.trailing_iff`: in a source without problems a comment is trailing exactly if a
  declaration stands on its line;
* `Document.ofSource_of_lines`: a source whose lines read as known rows (`Reads`) gives the
  declarations and the comments of the rows, each with the number of its row.
-/

namespace ResourceDecl

open Text

/-! ## What a line of a source gives -/

namespace SourceLine

variable {line : SourceLine} {s : Statement} {c : Comment}

theorem derives_of_statement? (h : line.statement? = some s) :
    ∃ opener tokens, line.held.tokens = opener :: tokens ∧ s.Derives opener tokens ∧
      ∀ token ∈ opener :: tokens, token.kind.Lexed ∧ token.line = line.number := by
  rw [statement?, run] at h
  have hkinds : ∀ token ∈ line.held.tokens, _ :=
    scanRest_tokens line.number false line.start 1 line.text
  cases htokens : line.held.tokens with
  | nil =>
    rw [htokens] at h
    cases h
  | cons opener tokens =>
    rw [htokens] at h hkinds
    have hread : ∀ token ∈ opener :: tokens, token.kind ≠ .unreadable := by
      intro token hm hk
      rw [Run.statement?, Run.outcome?_eq_none_of_mem hm hk] at h
      cases h
    refine ⟨opener, tokens, rfl, (Run.statement?_cons_iff hread).mp h, fun token hm => ?_⟩
    obtain ⟨hlexed | hk, hnumber⟩ := hkinds token hm
    · exact ⟨hlexed, hnumber⟩
    · exact absurd hk (hread token hm)

theorem line_of_statement? (h : line.statement? = some s) : s.line = line.number := by
  obtain ⟨opener, tokens, -, hderives, hkinds⟩ := derives_of_statement? h
  rw [hderives.line]
  exact (hkinds opener List.mem_cons_self).2

theorem wellFormed_of_statement? (h : line.statement? = some s) : s.WellFormed := by
  obtain ⟨opener, tokens, -, hderives, hkinds⟩ := derives_of_statement? h
  exact hderives.wellFormed fun token hm => (hkinds token (List.mem_cons_of_mem _ hm)).1

theorem comment_spec (hline : '\n' ∉ line.text) (h : line.held.comment = some c) :
    IsComment c.text.toList ∧ c.line = line.number ∧
      c.trailing = !line.held.tokens.isEmpty := by
  rcases scanRest_cases line.number false line.start 1 line.text with
    ⟨kinds, comment, hlexes⟩ | ⟨-, hnone, -⟩
  · obtain ⟨hkinds, -, hcomment, -⟩ :=
      scanRest_of_lexes hlexes line.number false line.start 1
    have hheld : (scanRest line.number false line.start 1 line.text).comment = some c := h
    rw [hheld] at hcomment
    obtain ⟨text, rfl, heq⟩ := Option.map_eq_some_iff.mp hcomment.symm
    simp only [Prod.mk.injEq, Bool.false_or] at heq
    obtain ⟨rfl, hnumber, htrailing⟩ := heq
    refine ⟨hlexes.isComment hline _ rfl, hnumber.symm, ?_⟩
    rw [← htrailing, ← hkinds, List.isEmpty_map]
    rfl
  · have hheld : (scanRest line.number false line.start 1 line.text).comment = some c := h
    rw [hheld] at hnone
    cases hnone

end SourceLine

/-! ## What a source gives -/

namespace Document

variable {source : String}

theorem exists_line_of_mem_program {s : Statement} (h : s ∈ (ofSource source).program) :
    ∃ line ∈ sourceLines source.toList, line.statement? = some s := by
  rw [program_ofSource] at h
  exact List.mem_filterMap.mp h

theorem exists_line_of_mem_comments {c : Comment} (h : c ∈ (ofSource source).comments) :
    ∃ line ∈ sourceLines source.toList, line.held.comment = some c := by
  rw [comments_ofSource] at h
  exact List.mem_filterMap.mp h

theorem wellFormed_of_mem_program {s : Statement} (h : s ∈ (ofSource source).program) :
    s.WellFormed := by
  obtain ⟨line, hm, hs⟩ := exists_line_of_mem_program h
  exact SourceLine.wellFormed_of_statement? hs

theorem isComment_of_mem_comments {c : Comment} (h : c ∈ (ofSource source).comments) :
    IsComment c.text.toList := by
  obtain ⟨line, hm, hc⟩ := exists_line_of_mem_comments h
  exact (SourceLine.comment_spec (not_mem_of_mem_sourceLines hm) hc).1

/-- Declarations stand in the order of their lines, one to a line. -/
theorem pairwise_program (source : String) :
    (ofSource source).program.Pairwise fun s t => s.line < t.line := by
  rw [program_ofSource, List.pairwise_filterMap]
  refine (pairwise_number_sourceLines source.toList).imp_of_mem ?_
  intro a b ha hb hlt s hs t ht
  rw [SourceLine.line_of_statement? hs,
    SourceLine.line_of_statement? ht]
  exact hlt

/-- Comments stand in the order of their lines, one to a line. -/
theorem pairwise_comments (source : String) :
    (ofSource source).comments.Pairwise fun c d => c.line < d.line := by
  rw [comments_ofSource, List.pairwise_filterMap]
  refine (pairwise_number_sourceLines source.toList).imp_of_mem ?_
  intro a b ha hb hlt c hc d hd
  rw [(SourceLine.comment_spec (not_mem_of_mem_sourceLines ha) hc).2.1,
    (SourceLine.comment_spec (not_mem_of_mem_sourceLines hb) hd).2.1]
  exact hlt

theorem eq_of_number_eq {text : List Char} {a b : SourceLine} (ha : a ∈ sourceLines text)
    (hb : b ∈ sourceLines text) (h : a.number = b.number) : a = b := by
  have hnodup : ((sourceLines text).map SourceLine.number).Nodup := by
    rw [sourceLines, map_number_numberLines]
    exact List.nodup_range'
  exact List.inj_on_of_nodup_map hnodup ha hb h

/-- A comment is trailing exactly if a declaration stands on its line. -/
theorem trailing_iff (hproblems : (ofSource source).problems = []) {c : Comment}
    (h : c ∈ (ofSource source).comments) :
    c.trailing = true ↔ ∃ s ∈ (ofSource source).program, s.line = c.line := by
  obtain ⟨line, hm, hc⟩ := exists_line_of_mem_comments h
  obtain ⟨-, hnumber, htrailing⟩ :=
    SourceLine.comment_spec (not_mem_of_mem_sourceLines hm) hc
  obtain ⟨-, hdeclares⟩ := (problems_ofSource_eq_nil_iff source).mp hproblems line hm
  constructor
  · intro htrue
    have hne : line.held.tokens ≠ [] := by
      intro hnil
      simp [htrailing, hnil] at htrue
    obtain ⟨s, hs⟩ := Option.ne_none_iff_exists'.mp (hdeclares.resolve_left hne)
    refine ⟨s, ?_, ?_⟩
    · rw [program_ofSource]
      exact List.mem_filterMap.mpr ⟨line, hm, hs⟩
    · rw [hnumber]
      exact SourceLine.line_of_statement? hs
  · rintro ⟨s, hs, hline⟩
    obtain ⟨other, hother, hs⟩ := exists_line_of_mem_program hs
    have hsame : other.number = line.number := by
      rw [← SourceLine.line_of_statement? hs, hline, hnumber]
    obtain rfl := eq_of_number_eq hother hm hsame
    obtain ⟨opener, tokens, htokens, -⟩ :=
      SourceLine.derives_of_statement? hs
    simp [htrailing, htokens]

end Document

/-! ## Rows -/

/-- A row of a source: the declaration of a line and its comment. -/
abbrev Row := Option Statement × Option String

/-- How a line with this text reads, places aside. -/
inductive Reads : List Char → Row → Prop
  | plain {text : List Char} {comment : Option String} :
      Lexes text [] comment → Reads text (none, comment)
  | statement {text : List Char} {s : Statement} {comment : Option String} :
      s.WellFormed → Lexes text (.keyword s.keyword :: s.kinds) comment →
        Reads text (some s, comment)

/-- The declaration is a copy of the numbered one, on the line of that number. -/
def Statement.IsCopy (t : Statement) (p : Statement × Nat) : Prop :=
  t.SameShape p.1 ∧ t.line = p.2

/-- The declarations of rows with the numbers of their rows. -/
def numberedStatements (number : Nat) (rows : List Row) : List (Statement × Nat) :=
  (rows.zipIdx number).filterMap fun (row, k) => row.1.map fun s => (s, k)

/-- The comments of rows with the numbers of their rows; those behind a declaration are trailing. -/
def numberedComments (number : Nat) (rows : List Row) : List (String × Nat × Bool) :=
  (rows.zipIdx number).filterMap fun (row, k) => row.2.map fun text => (text, k, row.1.isSome)

theorem numberedStatements_cons (number : Nat) (s? : Option Statement) (comment : Option String)
    (rows : List Row) : numberedStatements number ((s?, comment) :: rows) =
      (s?.map fun s => (s, number)).toList ++ numberedStatements (number + 1) rows := by
  rw [numberedStatements, List.zipIdx_cons, List.filterMap_cons]
  cases s? <;> rfl

theorem numberedComments_cons (number : Nat) (s? : Option Statement) (comment : Option String)
    (rows : List Row) : numberedComments number ((s?, comment) :: rows) =
      (comment.map fun text => (text, number, s?.isSome)).toList ++
        numberedComments (number + 1) rows := by
  rw [numberedComments, List.zipIdx_cons, List.filterMap_cons]
  cases comment <;> rfl

namespace SourceLine

variable {line : SourceLine} {s? : Option Statement} {comment : Option String}

theorem holds_of_lexes {kinds : List TokenKind} (h : Lexes line.text kinds comment) :
    line.held.Holds line.number false kinds comment :=
  scanRest_of_lexes h line.number false line.start 1

theorem statement?_of_reads_none (h : Reads line.text (none, comment)) :
    line.held.tokens = [] ∧ line.statement? = none := by
  cases h with
  | plain hlexes =>
    have htokens : line.held.tokens = [] := List.map_eq_nil_iff.mp (holds_of_lexes hlexes).kinds_eq
    refine ⟨htokens, ?_⟩
    rw [statement?, run, htokens, Run.statement?_nil]

theorem statement?_of_reads_some {s : Statement} (h : Reads line.text (some s, comment)) :
    ∃ t, line.statement? = some t ∧ t.SameShape s ∧ t.line = line.number := by
  cases h with
  | statement hs hlexes =>
    obtain ⟨hkinds, hnumber, -, hproblem⟩ := holds_of_lexes hlexes
    have hread := ne_unreadable hproblem
    obtain ⟨opener, tokens, htokens, hopener, htail⟩ := List.map_eq_cons_iff.mp hkinds
    rw [htokens] at hnumber hread
    obtain ⟨t, ht, hsame, hopenerLine⟩ := hs.declares hopener htail line.newline
    refine ⟨t, ?_, hsame, hopenerLine.trans (hnumber opener List.mem_cons_self)⟩
    rw [statement?, run, htokens, Run.statement?_cons_iff hread]
    exact ofTokens_eq_ok_iff.mp ht

theorem comment_of_reads (h : Reads line.text (s?, comment)) :
    (line.held.comment.map fun c => (c.text, c.line, c.trailing)) =
      comment.map fun text => (text, line.number, s?.isSome) := by
  cases h with
  | plain hlexes => simpa using (holds_of_lexes hlexes).comment_eq
  | statement _ hlexes => simpa using (holds_of_lexes hlexes).comment_eq

theorem clean_of_reads (h : Reads line.text (s?, comment)) :
    line.held.problem = none ∧ (line.held.tokens = [] ∨ line.statement? ≠ none) := by
  cases s? with
  | none =>
    obtain ⟨htokens, -⟩ := statement?_of_reads_none h
    cases h with
    | plain hlexes => exact ⟨(holds_of_lexes hlexes).no_problem, .inl htokens⟩
  | some s =>
    obtain ⟨t, ht, -⟩ := statement?_of_reads_some h
    cases h with
    | statement _ hlexes => exact ⟨(holds_of_lexes hlexes).no_problem, .inr (by simp [ht])⟩

end SourceLine

theorem numberLines_cons (number start : Nat) (text : List Char) (texts : List (List Char)) :
    ∃ line start', numberLines number start (text :: texts) =
      line :: numberLines (number + 1) start' texts ∧ line.number = number ∧ line.text = text := by
  cases texts with
  | nil => exact ⟨_, start, rfl, rfl, rfl⟩
  | cons next texts => exact ⟨_, _, rfl, rfl, rfl⟩

/-- The lines of rows give the declarations and comments of the rows and no problem. -/
theorem numberLines_of_rows {texts : List (List Char)} {rows : List Row}
    (h : List.Forall₂ Reads texts rows) (number start : Nat) :
    (∀ line ∈ numberLines number start texts,
        line.held.problem = none ∧ (line.held.tokens = [] ∨ line.statement? ≠ none)) ∧
      List.Forall₂ Statement.IsCopy
        ((numberLines number start texts).filterMap SourceLine.statement?)
        (numberedStatements number rows) ∧
      (((numberLines number start texts).filterMap fun line => line.held.comment).map fun c =>
          (c.text, c.line, c.trailing)) =
        numberedComments number rows := by
  induction h generalizing number start with
  | nil => exact ⟨by simp [numberLines], .nil, rfl⟩
  | @cons text row texts rows hreads _ ih =>
    obtain ⟨line, start', hcons, rfl, rfl⟩ := numberLines_cons number start text texts
    obtain ⟨hclean, hprogram, hcomments⟩ := ih (line.number + 1) start'
    obtain ⟨s?, comment⟩ := row
    rw [hcons, numberedStatements_cons, numberedComments_cons, List.filterMap_cons,
      List.filterMap_cons]
    refine ⟨List.forall_mem_cons.mpr ⟨line.clean_of_reads hreads, hclean⟩, ?_, ?_⟩
    · cases s? with
      | none =>
        rw [(line.statement?_of_reads_none hreads).2]
        exact hprogram
      | some s =>
        obtain ⟨t, ht, hsame, hline⟩ := line.statement?_of_reads_some hreads
        rw [ht]
        exact .cons ⟨hsame, hline⟩ hprogram
    · have hcomment := line.comment_of_reads hreads
      rw [← hcomments, ← hcomment]
      cases line.held.comment <;> rfl

theorem Document.ofSource_of_rows {source : String} {rows : List Row}
    (h : List.Forall₂ Reads (pieces source.toList) rows) :
    (ofSource source).problems = [] ∧
      List.Forall₂ Statement.IsCopy
        (ofSource source).program (numberedStatements 1 rows) ∧
      ((ofSource source).comments.map fun c => (c.text, c.line, c.trailing)) =
        numberedComments 1 rows := by
  obtain ⟨hclean, hprogram, hcomments⟩ := numberLines_of_rows h 1 0
  rw [problems_ofSource_eq_nil_iff, program_ofSource, comments_ofSource]
  exact ⟨hclean, hprogram, hcomments⟩

theorem numberedStatements_append_plain (number : Nat) (rows : List Row) :
    numberedStatements number (rows ++ [(none, none)]) = numberedStatements number rows := by
  simp [numberedStatements, List.zipIdx_append]

theorem numberedComments_append_plain (number : Nat) (rows : List Row) :
    numberedComments number (rows ++ [(none, none)]) = numberedComments number rows := by
  simp [numberedComments, List.zipIdx_append]

theorem reads_nil : Reads [] (none, none) :=
  .plain (.blank rfl)

/-- A source made of lines that read as rows, with or without its last line feed, gives what the
rows hold, each with the number of its row. -/
theorem Document.ofSource_of_lines {source : String} {texts : List (List Char)} {rows : List Row}
    (hsource : source.toList = texts.flatMap (· ++ ['\n']) ∨
      source.toList = (texts.flatMap (· ++ ['\n'])).dropLast)
    (h : List.Forall₂ Reads texts rows)
    (hlines : ∀ text ∈ texts, '\n' ∉ text) :
    (ofSource source).problems = [] ∧
      List.Forall₂ Statement.IsCopy
        (ofSource source).program (numberedStatements 1 rows) ∧
      ((ofSource source).comments.map fun c => (c.text, c.line, c.trailing)) =
        numberedComments 1 rows := by
  have hplain : List.Forall₂ Reads (texts ++ [[]])
      (rows ++ [(none, none)]) := List.rel_append h (.cons reads_nil .nil)
  have hended (hpieces : pieces source.toList = texts ++ [[]]) := by
    have hgives := ofSource_of_rows (hpieces ▸ hplain)
    rwa [numberedStatements_append_plain, numberedComments_append_plain] at hgives
  rcases hsource with hsource | hsource
  · apply hended
    have hcut := pieces_lines hlines (List.not_mem_nil (a := '\n'))
    rwa [List.append_nil, ← hsource] at hcut
  · rcases List.eq_nil_or_concat texts with rfl | ⟨front, last, rfl⟩
    · apply hended
      rw [hsource]
      rfl
    · rw [List.concat_eq_append] at hsource hlines h
      have hcut := pieces_lines (fun text hm => hlines text (List.mem_append_left _ hm))
        (hlines last (by simp))
      rw [List.flatMap_append, List.flatMap_singleton, ← List.append_assoc,
        List.dropLast_concat] at hsource
      rw [← hsource] at hcut
      exact ofSource_of_rows (hcut ▸ h)

end ResourceDecl
