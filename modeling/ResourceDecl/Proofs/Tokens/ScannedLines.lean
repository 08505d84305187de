import ResourceDecl.Token.Stream

/-!
# Lines on their own

The scanner of a source goes on over line feeds, but what it finds on a line depends on the number
and the offset of the line alone. Here lines are cut off first and scanned one by one:
`SourceLine.scan` gives the tokens of a line, its comment and what is wrong with it.

* `sourceLines`: the lines of a source, numbered and with their offsets.
* `scanRest`, `SourceLine.scan`: the scanner of one line, with an equation for each of its steps.
* `endToken`: the end of a source, placed by its last line.
-/

namespace ResourceDecl

open Text

/-! ## Lines -/

/-- A line of a source, its number and the offset at which it starts. -/
structure SourceLine where
  number : Nat
  start : Nat
  text : List Char
  isLast : Bool
deriving DecidableEq, Inhabited

/-- Number the lines and count their offsets. -/
def numberLines (number start : Nat) : List (List Char) → List SourceLine
  | [] => []
  | [text] => [⟨number, start, text, true⟩]
  | text :: rest =>
    ⟨number, start, text, false⟩ :: numberLines (number + 1) (start + byteLength text + 1) rest

/-- The lines of a source. -/
def sourceLines (source : List Char) : List SourceLine :=
  numberLines 1 0 (pieces source)

/-- What a line holds. -/
structure ScannedLine where
  tokens : List Token
  comment : Option Comment
  problem : Option Problem
deriving DecidableEq, Inhabited

/-! ## Scanning a line -/

/-- Scan the rest of a line from the given offset and column on; `seen` when the line has a token
already. -/
def scanRest (line : Nat) (seen : Bool) (start column : Nat) (rest : List Char) : ScannedLine :=
  let gap := rest.takeWhile isInlineBlank
  let start := start + byteLength gap
  let column := column + gap.length
  match _hs : skipBlanks rest with
  | [] => ⟨[], none, none⟩
  | first :: tail =>
    if opensComment first tail then
      let text := trimEnd (first :: tail)
      let span := ⟨start, start + byteLength text⟩
      ⟨[], some ⟨String.ofList text, span, line, seen⟩, none⟩
    else
      match _hr : readLexeme first tail with
      | (.ok kind, next) =>
        let text := consumed (first :: tail) next
        let stop := start + byteLength text
        let after := scanRest line true stop (column + text.length) next
        { after with tokens := ⟨kind, ⟨start, stop⟩, line, column⟩ :: after.tokens }
      | (.error fault, next) =>
        let span := ⟨start, start + byteLength (first :: tail)⟩
        let token : Token := ⟨.unreadable, span, line, column⟩
        let offending := String.ofList (consumed (first :: tail) next)
        ⟨[token], none, some (token.problem (.lexical fault offending))⟩
termination_by rest.length
decreasing_by
  have hs := length_skipBlanks_le rest
  have hr := length_readLexeme_le first tail
  rw [_hs, List.length_cons] at hs
  rw [_hr] at hr
  exact Nat.lt_of_le_of_lt hr hs

namespace SourceLine

/-- The offset behind the last character of the line. -/
def stop (line : SourceLine) : Nat :=
  line.start + byteLength line.text

/-- The token of the line feed. -/
def newline (line : SourceLine) : Token :=
  ⟨.newline, ⟨line.stop, line.stop + 1⟩, line.number, line.text.length + 1⟩

/-- The tokens of the line, its comment and what is wrong with it. -/
def scan (line : SourceLine) : ScannedLine :=
  let scanned := scanRest line.number false line.start 1 line.text
  if scanned.tokens.isEmpty || line.isLast then scanned
  else { scanned with tokens := scanned.tokens ++ [line.newline] }

end SourceLine

/-- The token behind the last character of a source. -/
def endToken (source : List Char) : Token :=
  let lines := pieces source
  ⟨.done, ⟨byteLength source, byteLength source⟩, lines.length, (lines.getLastD []).length + 1⟩

/-! ## Steps of the scanner -/

/-- The steps without the equalities that make the scanner end. -/
theorem scanRest_eq (line : Nat) (seen : Bool) (start column : Nat) (rest : List Char) :
    scanRest line seen start column rest =
      let gap := rest.takeWhile isInlineBlank
      let start := start + byteLength gap
      let column := column + gap.length
      match skipBlanks rest with
      | [] => ⟨[], none, none⟩
      | first :: tail =>
        if opensComment first tail then
          let text := trimEnd (first :: tail)
          let span := ⟨start, start + byteLength text⟩
          ⟨[], some ⟨String.ofList text, span, line, seen⟩, none⟩
        else
          match readLexeme first tail with
          | (.ok kind, next) =>
            let text := consumed (first :: tail) next
            let stop := start + byteLength text
            let after := scanRest line true stop (column + text.length) next
            { after with tokens := ⟨kind, ⟨start, stop⟩, line, column⟩ :: after.tokens }
          | (.error fault, next) =>
            let span := ⟨start, start + byteLength (first :: tail)⟩
            let token : Token := ⟨.unreadable, span, line, column⟩
            let offending := String.ofList (consumed (first :: tail) next)
            ⟨[token], none, some (token.problem (.lexical fault offending))⟩ := by
  rw [scanRest]
  split <;> rename_i heq <;> simp only [heq]
  split
  · rfl
  · split <;> rename_i heq <;> simp only [heq]

section Steps

variable {line start column : Nat} {seen : Bool} {rest tail next : List Char} {first : Char}
  {kind : TokenKind} {fault : LexFault}

theorem scanRest_blank (hs : skipBlanks rest = []) :
    scanRest line seen start column rest = ⟨[], none, none⟩ := by
  simp only [scanRest_eq line seen start column rest, hs]

theorem scanRest_comment (hs : skipBlanks rest = first :: tail) (hc : opensComment first tail) :
    scanRest line seen start column rest =
      let text := trimEnd (first :: tail)
      let start := start + byteLength (rest.takeWhile isInlineBlank)
      ⟨[], some ⟨String.ofList text, ⟨start, start + byteLength text⟩, line, seen⟩, none⟩ := by
  simp only [scanRest_eq line seen start column rest, hs, hc, if_true]

theorem scanRest_token (hs : skipBlanks rest = first :: tail) (hc : ¬ opensComment first tail)
    (hr : readLexeme first tail = (.ok kind, next)) :
    scanRest line seen start column rest =
      let gap := rest.takeWhile isInlineBlank
      let text := consumed (first :: tail) next
      let stop := start + byteLength gap + byteLength text
      let after := scanRest line true stop (column + gap.length + text.length) next
      { after with
        tokens := ⟨kind, ⟨start + byteLength gap, stop⟩, line, column + gap.length⟩ ::
          after.tokens } := by
  simp only [scanRest_eq line seen start column rest, hs, hc, hr, if_false, Bool.false_eq_true]

theorem scanRest_fault (hs : skipBlanks rest = first :: tail) (hc : ¬ opensComment first tail)
    (hr : readLexeme first tail = (.error fault, next)) :
    scanRest line seen start column rest =
      let gap := rest.takeWhile isInlineBlank
      let start := start + byteLength gap
      let token : Token :=
        ⟨.unreadable, ⟨start, start + byteLength (first :: tail)⟩, line, column + gap.length⟩
      let offending := String.ofList (consumed (first :: tail) next)
      ⟨[token], none, some (token.problem (.lexical fault offending))⟩ := by
  simp only [scanRest_eq line seen start column rest, hs, hc, hr, if_false, Bool.false_eq_true]

end Steps

/-! ## Cutting at line feeds -/

/-- Lines that each end in a line feed, and a last one that does not. -/
theorem pieces_lines {lines : List (List Char)} {last : List Char}
    (hlines : ∀ line ∈ lines, '\n' ∉ line) (hlast : '\n' ∉ last) :
    pieces (lines.flatMap (· ++ ['\n']) ++ last) = lines ++ [last] := by
  induction lines with
  | nil => exact List.splitOn_eq_singleton hlast
  | cons line lines ih =>
    obtain ⟨hline, hrest⟩ := List.forall_mem_cons.mp hlines
    rw [List.flatMap_cons, List.append_assoc, List.append_assoc, List.singleton_append]
    have hcut := List.splitOn_append_cons_self_of_not_mem hline
      (lines.flatMap (· ++ ['\n']) ++ last)
    rw [pieces, hcut, List.cons_append, ← ih hrest]
    rfl

theorem not_mem_of_mem_pieces {text line : List Char} (h : line ∈ pieces text) : '\n' ∉ line := by
  unfold pieces at h
  induction text generalizing line with
  | nil =>
    rw [List.splitOn_nil] at h
    rw [List.mem_singleton.mp h]
    exact List.not_mem_nil
  | cons c text ih =>
    rw [List.splitOn_cons_eq_if_modifyHead] at h
    by_cases hc : c = '\n'
    · rw [if_pos (by simpa using hc)] at h
      rcases List.mem_cons.mp h with rfl | h
      · exact List.not_mem_nil
      · exact ih h
    · rw [if_neg (by simpa using hc)] at h
      cases hcut : text.splitOn '\n' with
      | nil =>
        rw [hcut] at h
        cases h
      | cons first rest =>
        rw [hcut] at h ih
        rcases List.mem_cons.mp h with rfl | h
        · have hfirst := ih List.mem_cons_self
          simp [hfirst, Ne.symm hc]
        · exact ih (List.mem_cons_of_mem _ h)

theorem pieces_ne_nil (text : List Char) : pieces text ≠ [] :=
  List.splitOn_ne_nil _ _

theorem length_pieces (text : List Char) : (pieces text).length = text.count '\n' + 1 := by
  induction text with
  | nil => rfl
  | cons c text ih =>
    rw [pieces, List.splitOn_cons_eq_if_modifyHead, List.count_cons, Nat.add_right_comm, ← ih]
    split
    · rfl
    · exact List.length_modifyHead

/-- Cutting loses the line feeds only. -/
theorem intercalate_pieces (text : List Char) : ['\n'].intercalate (pieces text) = text :=
  List.intercalate_splitOn '\n'

theorem intercalate_cons {texts : List (List Char)} (hne : texts ≠ []) (text : List Char) :
    ['\n'].intercalate (text :: texts) = text ++ '\n' :: ['\n'].intercalate texts := by
  rw [List.intercalate_cons_of_ne_nil hne, List.append_assoc]
  rfl

/-! ## Numbered lines -/

theorem numberLines_of_ne_nil (number start : Nat) (text : List Char) {texts : List (List Char)}
    (h : texts ≠ []) : numberLines number start (text :: texts) =
      ⟨number, start, text, false⟩ ::
        numberLines (number + 1) (start + byteLength text + 1) texts := by
  cases texts with
  | nil => exact absurd rfl h
  | cons next texts => rfl

theorem map_number_numberLines (number start : Nat) (texts : List (List Char)) :
    (numberLines number start texts).map SourceLine.number = List.range' number texts.length := by
  fun_induction numberLines number start texts with
  | case1 => rfl
  | case2 => rfl
  | case3 number start text rest _ ih =>
    rw [List.map_cons, ih, List.length_cons, List.range'_succ]

theorem map_text_numberLines (number start : Nat) (texts : List (List Char)) :
    (numberLines number start texts).map SourceLine.text = texts := by
  fun_induction numberLines number start texts with
  | case1 => rfl
  | case2 => rfl
  | case3 number start text rest _ ih => rw [List.map_cons, ih]

/-- One line is the last one, and it stands behind all others. -/
theorem sourceLines_eq_append (text : List Char) :
    ∃ front last, sourceLines text = front ++ [last] ∧ last.isLast = true ∧
      ∀ line ∈ front, line.isLast = false := by
  have hnumbered (number start : Nat) {texts : List (List Char)} (hne : texts ≠ []) :
      ∃ front last, numberLines number start texts = front ++ [last] ∧
        last.isLast = true ∧ ∀ line ∈ front, line.isLast = false := by
    fun_induction numberLines number start texts with
    | case1 => exact absurd rfl hne
    | case2 => exact ⟨[], _, rfl, rfl, by simp⟩
    | case3 number start text rest hrest ih =>
      obtain ⟨front, last, hlines, hlast, hfront⟩ := ih (by simpa using hrest)
      exact ⟨⟨number, start, text, false⟩ :: front, last, by rw [hlines, List.cons_append], hlast,
        List.forall_mem_cons.mpr ⟨rfl, hfront⟩⟩
  exact hnumbered 1 0 (pieces_ne_nil text)

theorem pairwise_number_sourceLines (text : List Char) :
    (sourceLines text).Pairwise fun a b => a.number < b.number := by
  have hnumbers : ((sourceLines text).map SourceLine.number).Pairwise (· < ·) := by
    rw [sourceLines, map_number_numberLines]
    exact List.pairwise_lt_range'
  exact List.pairwise_map.mp hnumbers

theorem not_mem_of_mem_sourceLines {text : List Char} {line : SourceLine}
    (h : line ∈ sourceLines text) : '\n' ∉ line.text := by
  have hm : line.text ∈ (sourceLines text).map SourceLine.text := List.mem_map_of_mem h
  rw [sourceLines, map_text_numberLines] at hm
  exact not_mem_of_mem_pieces hm

/-! ## What a line holds -/

namespace SourceLine

/-- What the line holds, its line feed aside. -/
def held (line : SourceLine) : ScannedLine :=
  scanRest line.number false line.start 1 line.text

@[simp] theorem scan_comment (line : SourceLine) : line.scan.comment = line.held.comment := by
  rw [scan]
  split <;> rfl

@[simp] theorem scan_problem (line : SourceLine) : line.scan.problem = line.held.problem := by
  rw [scan]
  split <;> rfl

theorem scan_tokens_of_nil {line : SourceLine} (h : line.held.tokens = []) :
    line.scan.tokens = [] := by
  have hempty : (scanRest line.number false line.start 1 line.text).tokens = [] := h
  simp [scan, hempty]

theorem scan_tokens_of_last {line : SourceLine} (h : line.isLast) :
    line.scan.tokens = line.held.tokens := by
  simp [scan, h, held]

theorem scan_tokens {line : SourceLine} (hne : line.held.tokens ≠ []) (h : line.isLast = false) :
    line.scan.tokens = line.held.tokens ++ [line.newline] := by
  have hempty : (scanRest line.number false line.start 1 line.text).tokens ≠ [] := hne
  simp [scan, h, held, hempty]

theorem mem_scan_of_held {line : SourceLine} {token : Token} (h : token ∈ line.held.tokens) :
    token ∈ line.scan.tokens := by
  rw [scan]
  split
  · exact h
  · exact List.mem_append_left _ h

theorem mem_held_or_eq {line : SourceLine} {token : Token} (h : token ∈ line.scan.tokens) :
    token ∈ line.held.tokens ∨ token = line.newline := by
  rw [scan] at h
  split at h
  · exact .inl h
  · exact (List.mem_append.mp h).imp id List.mem_singleton.mp

theorem held_tokens_of_nil {line : SourceLine} (h : line.text = []) : line.held.tokens = [] := by
  rw [held, h, scanRest_blank rfl]

end SourceLine

end ResourceDecl
