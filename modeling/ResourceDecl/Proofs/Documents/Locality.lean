import ResourceDecl.Proofs.Documents.Outcomes
import ResourceDecl.Proofs.Places.Relocation

/-!
# Lines do not know of each other

Behind complete lines a source is read as if it began there, only that everything stands further
down, by the bytes and the lines in front of it.

* `scanRest_moved`: the same line further down holds the same, moved.
* `sourceLines_line`: the step, one line in front of a source.
* `sourceLines_append`: by induction, complete lines in front of a source.
* `Document.ofSource_append`: the document of a source behind complete lines.
* `ofSource_local`: the result, with the wording of the problems.
-/

namespace ResourceDecl

open Text

/-! ## The same line further down -/

def ScannedLine.moved (r : Relocation) (scanned : ScannedLine) : ScannedLine where
  tokens := scanned.tokens.map (Token.moved r)
  comment := scanned.comment.map (Comment.moved r)
  problem := scanned.problem.map (Problem.moved r)

def SourceLine.moved (r : Relocation) (line : SourceLine) : SourceLine :=
  { line with number := r.line line.number, start := r.offset line.start }

section Down

variable (bytes lines : Nat)

theorem scanRest_moved (line : Nat) (seen : Bool) (start column : Nat) (rest : List Char) :
    scanRest (line + lines) seen (start + bytes) column rest =
      (scanRest line seen start column rest).moved (.down bytes lines) := by
  induction seen, start, column, rest using scanRest.induct line with
  | case1 _ _ _ _ hs =>
    rw [scanRest_blank hs, scanRest_blank hs]
    rfl
  | case2 _ _ _ _ _ _ hs hc =>
    rw [scanRest_comment hs hc, scanRest_comment hs hc]
    -- every offset is the first one and some lengths, which do not move
    simp only [Nat.add_right_comm _ bytes]
    rfl
  | case3 seen start column rest gap _ _ first tail hs hc kind next hr text stop ih =>
    rw [scanRest_token hs hc hr, scanRest_token hs hc hr]
    simp only [Nat.add_right_comm _ bytes]
    rw [ih]
    rfl
  | case4 _ _ _ _ _ _ hs hc _ _ hr =>
    rw [scanRest_fault hs hc hr, scanRest_fault hs hc hr]
    simp only [Nat.add_right_comm _ bytes]
    rfl

namespace SourceLine

variable (line : SourceLine)

theorem held_moved : (line.moved (.down bytes lines)).held = line.held.moved (.down bytes lines) :=
  scanRest_moved bytes lines line.number false line.start 1 line.text

theorem newline_moved :
    (line.moved (.down bytes lines)).newline = line.newline.moved (.down bytes lines) := by
  have hstop : (line.moved (.down bytes lines)).stop = line.stop + bytes :=
    Nat.add_right_comm _ _ _
  rw [newline, newline, hstop, Nat.add_right_comm]
  rfl

theorem run_moved (final : Token) :
    (line.moved (.down bytes lines)).run (final.moved (.down bytes lines)) =
      (line.run final).moved (.down bytes lines) := by
  rw [run, run, held_moved, newline_moved]
  show Run.mk _ (if line.isLast then _ else _) = _
  split <;> rfl

theorem statement?_moved :
    (line.moved (.down bytes lines)).statement? =
      line.statement?.map (Statement.moved (.down bytes lines)) := by
  rw [statement?, newline_moved, run_moved, Run.statement?_moved]
  rfl

theorem problem?_moved (final : Token) :
    (line.moved (.down bytes lines)).problem? (final.moved (.down bytes lines)) =
      (line.problem? final).map (Problem.moved (.down bytes lines)) := by
  rw [problem?, problem?, run_moved, Run.problem?_moved, held_moved, Option.map_or]
  rfl

end SourceLine

theorem numberLines_moved (number start : Nat) (texts : List (List Char)) :
    numberLines (number + lines) (start + bytes) texts =
      (numberLines number start texts).map (SourceLine.moved (.down bytes lines)) := by
  fun_induction numberLines number start texts with
  | case1 => rfl
  | case2 => rfl
  | case3 number start text rest hrest ih =>
    rw [numberLines_of_ne_nil _ _ _ hrest, List.map_cons, ← ih]
    simp only [Nat.add_right_comm _ lines, Nat.add_right_comm _ bytes]
    rfl

end Down

/-! ## Complete lines in front of a source -/

/-- The text is empty or ends in a line feed. -/
def CompleteLines (text : String) : Prop :=
  text = "" ∨ ∃ front, text = front ++ "\n"

theorem CompleteLines.append {a b : String} (ha : CompleteLines a) (hb : CompleteLines b) :
    CompleteLines (a ++ b) := by
  rcases hb with rfl | ⟨front, rfl⟩
  · rwa [String.append_empty]
  · exact .inr ⟨a ++ front, String.append_assoc.symm⟩

theorem flatMap_line_feed {lines : List (List Char)} (h : lines ≠ []) :
    lines.flatMap (· ++ ['\n']) = ['\n'].intercalate lines ++ ['\n'] := by
  induction lines with
  | nil => exact absurd rfl h
  | cons line lines ih =>
    rw [List.flatMap_cons]
    by_cases hlines : lines = []
    · simp [hlines]
    · rw [ih hlines, List.intercalate_cons_of_ne_nil hlines, List.append_assoc (line ++ ['\n'])]

/-- Complete lines are lines that each end in a line feed. -/
theorem CompleteLines.exists_lines {text : String} (h : CompleteLines text) :
    ∃ lines : List (List Char), (∀ line ∈ lines, '\n' ∉ line) ∧
      text.toList = lines.flatMap (· ++ ['\n']) := by
  rcases h with rfl | ⟨front, rfl⟩
  · exact ⟨[], by simp, rfl⟩
  · refine ⟨pieces front.toList, fun _ => not_mem_of_mem_pieces, ?_⟩
    rw [flatMap_line_feed (pieces_ne_nil _), intercalate_pieces, String.toList_append]
    rfl

theorem SourceLine.moved_moved (line : SourceLine) (bytes lines bytes' lines' : Nat) :
    (line.moved (.down bytes lines)).moved (.down bytes' lines') =
      line.moved (.down (bytes + bytes') (lines + lines')) := by
  simp only [moved, Relocation.down, Nat.add_assoc]

/-- A line in front of a source: the lines of the source are moved. -/
theorem sourceLines_line {line : List Char} (hline : '\n' ∉ line) (text : List Char) :
    sourceLines (line ++ '\n' :: text) =
      ⟨1, 0, line, false⟩ ::
        (sourceLines text).map (SourceLine.moved (.down (byteLength line + 1) 1)) := by
  have hcut : pieces (line ++ '\n' :: text) = line :: pieces text :=
    List.splitOn_append_cons_self_of_not_mem hline text
  rw [sourceLines, hcut, numberLines_of_ne_nil _ _ _ (pieces_ne_nil text), sourceLines,
    ← numberLines_moved, Nat.add_assoc]

/-- Complete lines in front of a source: none of them is the last line, and the lines of the
source are moved. -/
theorem sourceLines_append {a : List Char} {lines : List (List Char)}
    (ha : a = lines.flatMap (· ++ ['\n'])) (hlines : ∀ line ∈ lines, '\n' ∉ line) :
    ∃ front : List SourceLine, (∀ line ∈ front, line.isLast = false) ∧
      ∀ text, sourceLines (a ++ text) = front ++
        (sourceLines text).map (SourceLine.moved (.down (byteLength a) (a.count '\n'))) := by
  induction lines generalizing a with
  | nil =>
    subst ha
    exact ⟨[], by simp, fun text => (List.map_id _).symm⟩
  | cons line lines ih =>
    obtain ⟨hline, hlines⟩ := List.forall_mem_cons.mp hlines
    obtain ⟨front, hfront, ih⟩ := ih rfl hlines
    have hbytes : byteLength (line ++ ['\n']) = byteLength line + 1 := byteLength_append _ _
    have hcount : (line ++ ['\n']).count '\n' = 1 := by
      simp [List.count_eq_zero_of_not_mem hline]
    refine ⟨⟨1, 0, line, false⟩ ::
      front.map (SourceLine.moved (.down (byteLength line + 1) 1)), ?_, fun text => ?_⟩
    · simpa [SourceLine.moved] using hfront
    · -- the source is moved by the lines behind the first one, and then by the first one
      rw [ha, List.flatMap_cons, byteLength_append, List.count_append, hbytes, hcount,
        List.append_assoc, List.append_assoc, List.singleton_append, sourceLines_line hline, ih,
        List.map_append, List.map_map, Nat.add_comm _ (byteLength _), Nat.add_comm 1]
      simp only [Function.comp_def, SourceLine.moved_moved, List.cons_append]

/-- What stands behind a text is moved by its bytes and its line feeds. -/
def Relocation.behind (a : String) : Relocation :=
  .down (byteLength a.toList) (a.toList.count '\n')

/-! ## The end of a source -/

theorem CompleteLines.getLastD_pieces {a : String} (ha : CompleteLines a) (text : List Char) :
    (pieces (a.toList ++ text)).getLastD [] = (pieces text).getLastD [] := by
  rcases ha with rfl | ⟨front, rfl⟩
  · rfl
  · have hcut : pieces ((front ++ "\n").toList ++ text) = pieces front.toList ++ pieces text := by
      rw [String.toList_append, List.append_assoc]
      exact List.splitOn_append_cons_self _ _
    obtain ⟨lines, last, hlast⟩ := (List.eq_nil_or_concat' _).resolve_left (pieces_ne_nil text)
    rw [hcut, hlast, ← List.append_assoc, List.getLastD_concat, List.getLastD_concat]

/-- Behind complete lines a source ends as it does on its own. -/
theorem endToken_append {a : String} (ha : CompleteLines a) (text : List Char) :
    endToken (a.toList ++ text) = (endToken text).moved (.behind a) := by
  have hcount : (pieces (a.toList ++ text)).length =
      (pieces text).length + a.toList.count '\n' := by
    rw [length_pieces, length_pieces, List.count_append]
    omega
  rw [endToken, hcount, ha.getLastD_pieces, byteLength_append, Nat.add_comm (byteLength a.toList)]
  rfl

/-! ## Documents -/

section Append

variable {a : String} (ha : CompleteLines a) (b : String)

include ha

/-- What lines give, put together: the last line of the text in front is blank, and whatever
depends on being the last line concerns the source behind alone. -/
theorem filterMap_sourceLines_append {α : Type} {whole front rest : SourceLine → Option α}
    {move : α → α} (hfront : ∀ line, line.isLast = false → whole line = front line)
    (hblank : ∀ line, line.held = ⟨[], none, none⟩ → front line = none)
    (hrest : ∀ line, whole (line.moved (.behind a)) = (rest line).map move) :
    (sourceLines (a ++ b).toList).filterMap whole =
      (sourceLines a.toList).filterMap front ++
        ((sourceLines b.toList).filterMap rest).map move := by
  obtain ⟨lines, hlines, htext⟩ := ha.exists_lines
  obtain ⟨first, hfirst, hcut⟩ := sourceLines_append htext hlines
  have halone := hcut []
  rw [List.append_nil] at halone
  have hsame : first.filterMap whole = first.filterMap front :=
    List.filterMap_congr fun line hm => hfront line (hfirst line hm)
  have hnone : ((sourceLines []).map (SourceLine.moved (.behind a))).filterMap front = [] := by
    rw [List.filterMap_eq_nil_iff]
    intro line hm
    obtain ⟨blank, hnil, rfl⟩ := List.mem_map.mp hm
    rw [List.mem_singleton.mp hnil]
    exact hblank _ (scanRest_blank rfl)
  rw [String.toList_append, hcut, halone, List.filterMap_append, List.filterMap_append, hsame,
    ← Relocation.behind, hnone, List.append_nil, List.filterMap_map, List.map_filterMap]
  congr 1
  exact List.filterMap_congr fun line _ => hrest line

namespace Document

theorem program_append : (ofSource (a ++ b)).program =
    (ofSource a).program ++ (ofSource b).program.map (Statement.moved (.behind a)) := by
  rw [program_ofSource, program_ofSource, program_ofSource]
  refine filterMap_sourceLines_append ha b (fun _ _ => rfl) (fun line hnil => ?_)
    (SourceLine.statement?_moved _ _)
  rw [SourceLine.statement?, SourceLine.run, hnil]
  exact Run.statement?_nil line.newline

theorem problems_append : (ofSource (a ++ b)).problems =
    (ofSource a).problems ++ (ofSource b).problems.map (Problem.moved (.behind a)) := by
  rw [problems_eq_filterMap, problems_eq_filterMap, problems_eq_filterMap, String.toList_append,
    endToken_append ha, ← String.toList_append]
  refine filterMap_sourceLines_append ha b (fun line hnot => ?_) (fun line hnil => ?_)
    fun line => SourceLine.problem?_moved _ _ line _
  · -- the end of the source matters on the last line alone
    simp [SourceLine.problem?, SourceLine.run, hnot]
  · rw [SourceLine.problem?, SourceLine.run, hnil]
    exact Run.problem?_nil (if line.isLast then endToken a.toList else line.newline)

theorem comments_append : (ofSource (a ++ b)).comments =
    (ofSource a).comments ++ (ofSource b).comments.map (Comment.moved (.behind a)) := by
  rw [comments_ofSource, comments_ofSource, comments_ofSource]
  refine filterMap_sourceLines_append ha b (fun _ _ => rfl) (fun line hnil => ?_) fun line => ?_
  · rw [hnil]
  · rw [Relocation.behind, SourceLine.held_moved]
    rfl

end Document

end Append

namespace Document

def moved (r : Relocation) (document : Document) : Document where
  program := document.program.map (Statement.moved r)
  problems := document.problems.map (Problem.moved r)
  comments := document.comments.map (Comment.moved r)

/-- One document behind the other. -/
def append (a b : Document) : Document where
  program := a.program ++ b.program
  problems := a.problems ++ b.problems
  comments := a.comments ++ b.comments

theorem ofSource_append {a : String} (ha : CompleteLines a) (b : String) :
    ofSource (a ++ b) = (ofSource a).append ((ofSource b).moved (.behind a)) := by
  simp only [append, moved, ← program_append ha b, ← problems_append ha b, ← comments_append ha b]

end Document

/-- Behind complete lines a source is read as if it began there, and everything stands further
down by the bytes and the line feeds in front of it. Problems keep their words, only that an
unresolved form names its line. So what complete lines in the middle give, and whether they can be
read at all, changes nothing of what is given in front of them and behind them. -/
theorem ofSource_local {a : String} (ha : CompleteLines a) (b : String) :
    Document.ofSource (a ++ b) =
        (Document.ofSource a).append ((Document.ofSource b).moved (.behind a)) ∧
      (∀ problem : Problem, (problem.moved (.behind a)).diagnostic =
        { problem.diagnostic with
          span := problem.span.moved (.behind a)
          line := problem.line + a.toList.count '\n'
          message := match problem.cause with
            | .unresolvedForm keyword =>
              (Cause.unresolvedForm keyword).message (problem.line + a.toList.count '\n')
            | _ => problem.diagnostic.message }) ∧
      ∀ c, CompleteLines c → Document.ofSource (a ++ c ++ b) =
        ((Document.ofSource a).append ((Document.ofSource c).moved (.behind a))).append
          ((Document.ofSource b).moved (.behind (a ++ c))) := by
  refine ⟨Document.ofSource_append ha b, fun problem => ?_, fun c hc => ?_⟩
  · obtain ⟨cause, span, line, column⟩ := problem
    cases cause <;> rfl
  · rw [Document.ofSource_append (ha.append hc), Document.ofSource_append ha]

/-- A string without its end and a map without a form in front of another map without a form: each
line gives its own problem, and the last one names its own line. -/
theorem ofSource_local_broken :
    let a := "BITMAP b \"x.png\nMAP m \"m.png\"\n"
    let b := "PALETTE p \"p.png\"\nMAP m 7 8 # end"
    CompleteLines a ∧
      Document.ofSource (a ++ b) =
        (Document.ofSource a).append ((Document.ofSource b).moved (.behind a)) ∧
      (Document.ofSource (a ++ b)).problems.map (fun problem => problem.diagnostic.message) =
        ["Unterminated string literal: \"x.png",
          "MAP statement on line 2 matches neither the image form nor the TMX form",
          "MAP statement on line 4 matches neither the image form nor the TMX form"] := by
  intro a b
  have ha : CompleteLines a := .inr ⟨"BITMAP b \"x.png\nMAP m \"m.png\"", rfl⟩
  obtain ⟨happend, -⟩ := ofSource_local ha b
  exact ⟨ha, happend, by decide +kernel⟩

end ResourceDecl
