import ResourceDecl.Proofs.Documents.Meaning
import ResourceDecl.Proofs.Places.Positions
import ResourceDecl.Proofs.Tokens.Delimited

/-!
# Other blanks, other comments

Blanks and comments do not change what a source means. A `Respaced` source has the same lexemes on
the same lines, with other blanks around them and another comment or none.

* `Respaces`: the lexemes of a line with other blanks between them.
* `scanRest_respaces`: the step, such a line holds the same tokens.
* `Respaced`, `Respaced.alike`: the same of sources.
* `lexes_append_blank_iff`, `lexes_withReturns`: a carriage return in front of each line feed.
* `respacing_keeps_meaning`: the result.
-/

namespace ResourceDecl

open Text

/-! ## Lines with other blanks -/

/-- The lexemes that the tokens cover in the text, each behind a run of blanks. The run is empty at
most in front of the first one and between tokens that touch; `stop` is where the token in front
ends. -/
inductive Respaces (text : List Char) : Option Nat → List Token → List Char → Prop
  | nil {stop : Option Nat} : Respaces text stop [] []
  | cons {stop : Option Nat} {gap lexeme rest : List Char} {token : Token} {tokens : List Token} :
      (∀ c ∈ gap, isInlineBlank c) → (gap = [] → ∀ offset ∈ stop, offset = token.span.start) →
        slice? text token.span = some lexeme → Respaces text (some token.span.stop) tokens rest →
        Respaces text stop (token :: tokens) (gap ++ (lexeme ++ rest))

theorem endsLexeme_of_isInlineBlank {c : Char} (h : isInlineBlank c) : endsLexeme c := by
  simp only [isInlineBlank, Bool.or_eq_true, beq_iff_eq] at h
  rcases h with (rfl | rfl) | rfl <;> decide

theorem followsLike_append_blank {gap : List Char} (hgap : ∀ c ∈ gap, isInlineBlank c)
    (hne : gap ≠ []) (next rest : List Char) : FollowsLike next (gap ++ rest) := by
  cases gap with
  | nil => exact absurd rfl hne
  | cons c gap =>
    rintro _ ⟨⟩
    exact .inr (endsLexeme_of_isInlineBlank (hgap c List.mem_cons_self))

/-- A lexeme behind blanks may stand in the place of the same lexeme behind other blanks, unless the
blanks in front of it were all of them taken away. -/
theorem followsLike_lexeme {gap blanks lexeme : List Char} (hne : lexeme ≠ [])
    (hblanks : ∀ c ∈ blanks, isInlineBlank c) (htouch : blanks = [] → gap = [])
    (next rest : List Char) :
    FollowsLike (gap ++ (lexeme ++ next)) (blanks ++ (lexeme ++ rest)) := by
  by_cases hempty : blanks = []
  · rw [htouch hempty, hempty]
    exact followsLike_append hne next rest
  · exact followsLike_append_blank hblanks hempty _ _

/-- A token that was read from a line is read wherever its own characters come first behind the
blanks and what may stand in the place of the rest of the line follows. -/
theorem exists_part {rest tail next : List Char} {first : Char} {kind : TokenKind}
    (hs : skipBlanks rest = first :: tail)
    (hr : readLexeme first tail = (.ok kind, next)) :
    ∃ part, tail = part ++ next ∧ (∀ c ∈ part.getLast?, isInlineBlank c = false) ∧
      ∀ {text behind : List Char} {kinds : List TokenKind} {comment : Option String},
        skipBlanks text = first :: (part ++ behind) → FollowsLike next behind →
          Lexes behind kinds comment → Lexes text (kind :: kinds) comment := by
  obtain ⟨part, rfl, hreads, hclosed⟩ := readLexeme_delimits hr
  refine ⟨part, rfl, hclosed, fun htext hlike hlexes => ?_⟩
  exact .token htext (not_opensComment_of_readLexeme hr _) (hreads _ hlike) hlexes

/-- A lexeme is read again behind other blanks, in front of a text that may stand in the place of
what follows it. -/
theorem Lexes.respaced_token {rest tail next gap behind : List Char} {first : Char}
    {kind : TokenKind} {kinds : List TokenKind} {comment : Option String}
    (hs : skipBlanks rest = first :: tail) (hr : readLexeme first tail = (.ok kind, next))
    (hgap : ∀ c ∈ gap, isInlineBlank c) (hlike : FollowsLike next behind)
    (h : Lexes behind kinds comment) :
    Lexes (gap ++ (consumed (first :: tail) next ++ behind)) (kind :: kinds) comment := by
  obtain ⟨part, rfl, -, hlexes⟩ := exists_part hs hr
  have hlexeme : consumed (first :: (part ++ next)) next = first :: part := by
    rw [consumed, ← List.cons_append, List.length_append, Nat.add_sub_cancel, List.take_left]
  rw [hlexeme]
  exact .gap hgap (hlexes (skipBlanks_cons (not_blank_of_skipBlanks_eq hs) _) hlike h)

/-- A line with other blanks between its tokens, and with any end that holds no token, holds tokens
of the same kinds. If the token in front of it touches it, no other character touches it now, but
for one that no token goes on with. -/
theorem scanRest_respaces {number start column : Nat} {seen : Bool} {rest body ending : List Char}
    {comment : Option String} (hproblem : (scanRest number seen start column rest).problem = none)
    (hending : Lexes ending [] comment)
    (hends : ∀ c ∈ ending.head?, endsLexeme c) {text before after : List Char}
    (htext : text = before ++ (rest ++ after)) (hstart : start = byteLength before)
    {stop : Option Nat}
    (h : Respaces text stop (scanRest number seen start column rest).tokens body) :
    Lexes (body ++ ending) ((scanRest number seen start column rest).tokens.map Token.kind)
        comment ∧
      (stop = some start → FollowsLike rest (body ++ ending)) := by
  induction seen, start, column, rest using scanRest.induct number generalizing
    before body stop with
  | case1 _ _ _ _ hs =>
    rw [scanRest_blank hs] at h ⊢
    cases h
    exact ⟨hending, fun _ c hc => .inr (hends c hc)⟩
  | case2 _ _ _ _ _ _ hs hc =>
    rw [scanRest_comment hs hc] at h ⊢
    cases h
    exact ⟨hending, fun _ c hc => .inr (hends c hc)⟩
  | case3 seen start column rest gap _ _ first tail hs hc kind next hr lexeme =>
    rename_i behind ih
    obtain ⟨hrest, hne⟩ := lexeme_append hs hr
    have hsplit : text = (before ++ gap) ++ (lexeme ++ (next ++ after)) := by
      rw [htext, ← hrest]
      simp [gap, lexeme]
    have hbehind : text = (before ++ (gap ++ lexeme)) ++ (next ++ after) := by simp [hsplit]
    have hoffset : behind = byteLength (before ++ (gap ++ lexeme)) := by
      rw [byteLength_append, byteLength_append, ← hstart, ← Nat.add_assoc]
    rw [scanRest_token hs hc hr] at h hproblem ⊢
    cases h with
    | @cons _ blanks kept others _ _ hblanks htouch hslice hbody =>
      have hmarks : Span.Marks ⟨start + byteLength gap, behind⟩ text _ lexeme :=
        ⟨before ++ gap, next ++ after, hsplit, by rw [hstart, byteLength_append], rfl, rfl⟩
      rw [hmarks.slice?_eq] at hslice
      obtain rfl := Option.some.inj hslice
      obtain ⟨hlexes, hlike⟩ := ih hproblem hbehind hoffset hbody
      rw [List.append_assoc, List.append_assoc]
      refine ⟨.respaced_token hs hr hblanks (hlike rfl) hlexes, fun hstop => ?_⟩
      have htouches : blanks = [] → gap = [] := fun hempty => by
        have hstart : start = start + byteLength gap := htouch hempty start hstop
        by_contra hgap
        have hpos := byteLength_pos hgap
        omega
      have hfollows := followsLike_lexeme hne hblanks htouches next (others ++ ending)
      rwa [hrest] at hfollows
  | case4 _ _ _ _ _ _ hs hc _ _ hr =>
    rw [scanRest_fault hs hc hr] at hproblem
    cases hproblem

/-- What may stand behind the last token of a line: blanks, and a comment or none. -/
inductive Closes : List Char → Option String → Prop
  | blank {blanks : List Char} : (∀ c ∈ blanks, isInlineBlank c) → Closes blanks none
  | comment {blanks tail : List Char} {first : Char} :
      (∀ c ∈ blanks, isInlineBlank c) → opensComment first tail →
        Closes (blanks ++ first :: tail) (some (String.ofList (trimEnd (first :: tail))))

theorem Closes.lexes {ending : List Char} {comment : Option String} (h : Closes ending comment) :
    Lexes ending [] comment := by
  cases h with
  | blank hblanks => exact .blank (List.dropWhile_eq_nil_iff.mpr hblanks)
  | @comment blanks tail first hblanks hopens =>
    exact .gap hblanks
      (.comment (skipBlanks_cons (not_inlineBlank_of_opensComment hopens) tail) hopens)

theorem Closes.endsLexeme {ending : List Char} {comment : Option String}
    (h : Closes ending comment) : ∀ c ∈ ending.head?, endsLexeme c := by
  cases h with
  | blank hblanks =>
    intro c hc
    exact endsLexeme_of_isInlineBlank (hblanks c (List.mem_of_mem_head? hc))
  | @comment blanks tail first hblanks hopens =>
    intro c hc
    cases blanks with
    | nil =>
      cases hc
      simp only [opensComment, Bool.or_eq_true, Bool.and_eq_true, beq_iff_eq] at hopens
      rcases hopens with rfl | ⟨rfl, -⟩ <;> decide
    | cons d blanks =>
      cases hc
      exact endsLexeme_of_isInlineBlank (hblanks c List.mem_cons_self)

namespace SourceLine

/-- The text is that of the line with other blanks, and with another comment or none in the place
of its comment. -/
def RespacedAs (text : List Char) (line : SourceLine) (respaced : List Char) : Prop :=
  ∃ body ending comment, respaced = body ++ ending ∧ Respaces text none line.held.tokens body ∧
    Closes ending comment ∧ (line.held.comment = none → comment = none)

theorem RespacedAs.alike {text : List Char} {line other : SourceLine}
    (h : line.RespacedAs text other.text) (hproblem : line.held.problem = none)
    (hm : line ∈ sourceLines text) (hnumber : line.number = other.number)
    (hlast : line.isLast = other.isLast) : line.Alike other := by
  obtain ⟨body, ending, comment, htext, hbody, hcloses, hnone⟩ := h
  obtain ⟨before, after, hsplit, hstart, -⟩ := standsIn_of_mem_sourceLines hm
  obtain ⟨hlexes, -⟩ :=
    scanRest_respaces hproblem hcloses.lexes hcloses.endsLexeme hsplit hstart hbody
  refine ⟨hnumber, hlast, ?_⟩
  obtain ⟨kinds, original, horiginal⟩ := exists_lexes hproblem
  obtain ⟨hkinds, -, hcomment, -⟩ := holds_of_lexes horiginal
  rw [htext]
  refine ⟨kinds, original, comment, horiginal, hkinds ▸ hlexes, fun heq => hnone ?_⟩
  rw [heq] at hcomment
  exact Option.map_eq_none_iff.mp hcomment

end SourceLine

/-! ## Sources with other blanks -/

/-- The other source has the lines of the source, with other blanks and with other comments or none
in the place of the comments. -/
def Respaced (source other : String) : Prop :=
  List.Forall₂ (SourceLine.RespacedAs source.toList) (sourceLines source.toList)
    (pieces other.toList)

/-- What is said of the texts of lines is said of the lines of these texts. -/
theorem forall₂_numberLines {R : SourceLine → List Char → Prop} {number start : Nat}
    {texts others : List (List Char)}
    (h : List.Forall₂ R (numberLines number start texts) others) (otherStart : Nat) :
    List.Forall₂ (fun line other =>
        R line other.text ∧ line.number = other.number ∧ line.isLast = other.isLast)
      (numberLines number start texts) (numberLines number otherStart others) := by
  fun_induction numberLines number start texts generalizing others otherStart with
  | case1 =>
    cases h
    exact .nil
  | case2 number start text =>
    cases h with
    | cons hline hnil =>
      cases hnil
      exact .cons ⟨hline, rfl, rfl⟩ .nil
  | case3 number start text rest hrest ih =>
    cases h with
    | @cons _ other _ others hline hlines =>
      have hne : others ≠ [] := by
        rintro rfl
        have htexts := map_text_numberLines (number + 1) (start + byteLength text + 1) rest
        rw [List.forall₂_nil_right_iff.mp hlines] at htexts
        exact hrest htexts.symm
      rw [numberLines_of_ne_nil _ _ _ hne]
      exact .cons ⟨hline, rfl, rfl⟩ (ih hlines _)

theorem Respaced.alike {source other : String} (h : Respaced source other)
    (hlexical : (TokenStream.ofSource source).problems = []) :
    List.Forall₂ SourceLine.Alike (sourceLines source.toList) (sourceLines other.toList) := by
  rw [Document.problems_scanned, List.filterMap_eq_nil_iff] at hlexical
  refine (forall₂_mem (forall₂_numberLines h 0)).imp ?_
  rintro line other ⟨hm, -, hrespaced, hnumber, hlast⟩
  exact hrespaced.alike (hlexical line hm) hm hnumber hlast

/-! ## Carriage returns -/

theorem trimEnd_append_blank {b : Char} (hb : isBlank b) (text : List Char) :
    trimEnd (text ++ [b]) = trimEnd text := by
  rw [trimEnd, trimEnd, List.reverse_concat, List.dropWhile_cons_of_pos hb]

theorem opensComment_append_blank {b first : Char} (hb : isInlineBlank b) (tail : List Char) :
    opensComment first (tail ++ [b]) = opensComment first tail := by
  cases tail with
  | nil =>
    have hslash : b ≠ '/' := by
      rintro rfl
      exact absurd hb (by decide)
    simp [opensComment, hslash]
  | cons c tail => rfl

theorem skipBlanks_append_blank {text tail : List Char} {c : Char}
    (h : skipBlanks text = c :: tail) (b : Char) :
    skipBlanks (text ++ [b]) = c :: (tail ++ [b]) := by
  obtain ⟨gap, rfl, hskip⟩ := exists_gap h
  rw [List.append_assoc, List.cons_append, hskip]

theorem skipBlanks_of_append_blank {text tail : List Char} {b c : Char} (hb : isInlineBlank b)
    (h : skipBlanks (text ++ [b]) = c :: tail) :
    ∃ front, tail = front ++ [b] ∧ skipBlanks text = c :: front := by
  obtain ⟨gap, heq, hskip⟩ := exists_gap h
  rcases List.eq_nil_or_concat' tail with rfl | ⟨front, d, rfl⟩
  · obtain ⟨-, hlast⟩ := List.append_inj' heq rfl
    rw [List.singleton_inj.mp hlast, not_blank_of_skipBlanks_eq h] at hb
    cases hb
  · rw [← List.cons_append, ← List.append_assoc] at heq
    obtain ⟨rfl, hlast⟩ := List.append_inj' heq rfl
    rw [List.singleton_inj.mp hlast]
    exact ⟨front, rfl, hskip front⟩

/-- A blank at the end of a line is not read. -/
theorem Lexes.append_blank {b : Char} (hb : isInlineBlank b) {text : List Char}
    {kinds : List TokenKind} {comment : Option String}
    (h : Lexes text kinds comment) : Lexes (text ++ [b]) kinds comment := by
  induction h with
  | @blank rest hs =>
    have hall := List.dropWhile_eq_nil_iff.mp hs
    refine .blank (List.dropWhile_eq_nil_iff.mpr fun c hc => ?_)
    rcases List.mem_append.mp hc with hc | hc
    · exact hall c hc
    · rwa [List.mem_singleton.mp hc]
  | @comment rest tail first hs hc =>
    have hcomment : Lexes _ [] _ :=
      .comment (skipBlanks_append_blank hs b) (by rwa [opensComment_append_blank hb])
    rwa [← List.cons_append, trimEnd_append_blank (isBlank_of_isInlineBlank hb)] at hcomment
  | @token rest tail next first kind kinds comment hs hc hr _ ih =>
    obtain ⟨part, rfl, -, hlexes⟩ := exists_part hs hr
    have hlike := followsLike_concat (endsLexeme_of_isInlineBlank hb) next
    have hskip := skipBlanks_append_blank hs b
    rw [List.append_assoc] at hskip
    exact hlexes hskip hlike ih

/-- Without a blank at its end a line is read as it is with it. -/
theorem Lexes.of_append_blank {b : Char} (hb : isInlineBlank b) {text : List Char}
    {kinds : List TokenKind} {comment : Option String}
    (h : Lexes (text ++ [b]) kinds comment) : Lexes text kinds comment := by
  generalize hwhole : text ++ [b] = whole at h
  induction h generalizing text with
  | blank hs =>
    have hall := List.dropWhile_eq_nil_iff.mp hs
    refine .blank (List.dropWhile_eq_nil_iff.mpr fun c hc => hall c ?_)
    rw [← hwhole]
    exact List.mem_append_left _ hc
  | comment hs hc =>
    subst hwhole
    obtain ⟨front, rfl, hfront⟩ := skipBlanks_of_append_blank hb hs
    rw [opensComment_append_blank hb] at hc
    rw [← List.cons_append, trimEnd_append_blank (isBlank_of_isInlineBlank hb)]
    exact .comment hfront hc
  | @token _ _ next first kind _ _ hs hc hr _ ih =>
    subst hwhole
    obtain ⟨front, rfl, hfront⟩ := skipBlanks_of_append_blank hb hs
    obtain ⟨part, hpart, hclosed, hlexes⟩ := exists_part hs hr
    rcases List.eq_nil_or_concat' next with rfl | ⟨behind, d, rfl⟩
    · -- the blank would be the last character of the token
      rw [List.append_nil] at hpart
      rw [hclosed b (by rw [← hpart, List.getLast?_concat, Option.mem_def])] at hb
      cases hb
    · rw [← List.append_assoc] at hpart
      obtain ⟨rfl, hlast⟩ := List.append_inj' hpart rfl
      exact hlexes hfront (followsLike_left behind [d]) (ih (by rw [hlast]))

theorem lexes_append_blank_iff {b : Char} (hb : isInlineBlank b) {text : List Char}
    {kinds : List TokenKind} {comment : Option String} :
    Lexes (text ++ [b]) kinds comment ↔ Lexes text kinds comment :=
  ⟨.of_append_blank hb, .append_blank hb⟩

/-- A carriage return in front of each line feed. -/
def withReturns (source : String) : String :=
  String.ofList (source.toList.flatMap fun c => if c = '\n' then ['\r', '\n'] else [c])

/-- The line with a carriage return at its end, unless it is the last one. -/
def SourceLine.returned (line : SourceLine) : List Char :=
  if line.isLast then line.text else line.text ++ ['\r']

theorem pieces_withReturns {number start : Nat} {texts : List (List Char)} (hne : texts ≠ [])
    (hlines : ∀ text ∈ texts, '\n' ∉ text) :
    pieces ((['\n'].intercalate texts).flatMap fun c => if c = '\n' then ['\r', '\n'] else [c]) =
      (numberLines number start texts).map SourceLine.returned := by
  have hkept {text : List Char} (h : '\n' ∉ text) :
      (text.flatMap fun c => if c = '\n' then ['\r', '\n'] else [c]) = text := by
    have hsame : ∀ c ∈ text, (if c = '\n' then ['\r', '\n'] else [c]) = [c] := by
      intro c hc
      apply if_neg
      rintro rfl
      exact h hc
    rw [List.flatMap_congr hsame, List.flatMap_singleton']
  fun_induction numberLines number start texts with
  | case1 => exact absurd rfl hne
  | case2 number start text =>
    have htext := hlines text List.mem_cons_self
    rw [List.intercalate_singleton, hkept htext]
    exact List.splitOn_eq_singleton htext
  | case3 number start text rest hrest ih =>
    obtain ⟨htext, hlines⟩ := List.forall_mem_cons.mp hlines
    have hreturned : '\n' ∉ text ++ ['\r'] := by simp [htext]
    rw [List.intercalate_cons_of_ne_nil hrest, List.flatMap_append, List.flatMap_append,
      hkept htext, List.map_cons, ← ih hrest hlines]
    show pieces (text ++ ['\r', '\n'] ++ _) = (text ++ ['\r']) :: _
    rw [List.append_cons, List.append_assoc]
    exact List.splitOn_append_cons_self_of_not_mem hreturned _

theorem lexes_returned_iff {line : SourceLine} {kinds : List TokenKind} {comment : Option String} :
    Lexes line.returned kinds comment ↔ Lexes line.text kinds comment := by
  rw [SourceLine.returned]
  split
  · rfl
  · exact lexes_append_blank_iff (by decide)

/-- A line with a carriage return at its end holds the same, if either of the two can be read. -/
theorem lexes_withReturns {source : String} (h : (TokenStream.ofSource source).problems = [] ∨
      (TokenStream.ofSource (withReturns source)).problems = []) :
    List.Forall₂ (fun a b => a.number = b.number ∧ a.isLast = b.isLast ∧
        ∃ kinds comment, Lexes a.text kinds comment ∧ Lexes b.text kinds comment)
      (sourceLines source.toList) (sourceLines (withReturns source).toList) := by
  have htexts : List.Forall₂ (fun line text => text = SourceLine.returned line)
      (sourceLines source.toList) (pieces (withReturns source).toList) := by
    have hpieces := @pieces_withReturns 1 0 _ (pieces_ne_nil source.toList) fun _ =>
      not_mem_of_mem_pieces
    rw [intercalate_pieces] at hpieces
    rw [withReturns, String.toList_ofList, hpieces, sourceLines, List.forall₂_map_right_iff]
    exact List.forall₂_same.mpr fun _ _ => rfl
  simp only [Document.problems_scanned, List.filterMap_eq_nil_iff] at h
  refine (forall₂_mem (forall₂_numberLines htexts 0)).imp ?_
  rintro a b ⟨ha, hb, htext, hnumber, hlast⟩
  have hiff {kinds : List TokenKind} {comment : Option String} :
      Lexes b.text kinds comment ↔ Lexes a.text kinds comment := by
    rw [htext]
    exact lexes_returned_iff
  refine ⟨hnumber, hlast, ?_⟩
  rcases h with h | h
  · obtain ⟨kinds, comment, hlexes⟩ := SourceLine.exists_lexes (h a ha)
    exact ⟨kinds, comment, hlexes, hiff.mpr hlexes⟩
  · obtain ⟨kinds, comment, hlexes⟩ := SourceLine.exists_lexes (h b hb)
    exact ⟨kinds, comment, hiff.mp hlexes, hlexes⟩

/-- A source and the same one with carriage returns have the same comments. -/
theorem map_text_comments_withReturns {source : String}
    (h : (TokenStream.ofSource source).problems = [] ∨
      (TokenStream.ofSource (withReturns source)).problems = []) :
    (Document.ofSource (withReturns source)).comments.map Comment.text =
      (Document.ofSource source).comments.map Comment.text := by
  symm
  rw [← forall₂_text_iff, Document.comments_ofSource, Document.comments_ofSource]
  refine List.rel_filterMap ?_ (lexes_withReturns h)
  rintro a b ⟨-, -, kinds, comment, ha, hb⟩
  have htext {line : SourceLine} (hlexes : Lexes line.text kinds comment) :
      line.held.comment.map Comment.text = comment := by
    have hcomment := congrArg (Option.map Prod.fst) (SourceLine.holds_of_lexes hlexes).comment_eq
    simpa [Option.map_map, Function.comp_def] using hcomment
  exact rel_of_map_eq ((htext ha).trans (htext hb).symm) fun _ _ h => h

/-! ## What blanks and comments leave alone -/

/-- Other blanks between the tokens of a source without lexical problems, and other comments in the
place of its comments, leave its declarations and its problems as they are, columns aside; if the
comments are kept and nothing is wrong, the source is formatted alike. The same holds of carriage
returns in front of all line feeds, put in or taken out. -/
theorem respacing_keeps_meaning (source : String) :
    (∀ other, (TokenStream.ofSource source).problems = [] → Respaced source other →
        SameMeaning source other ∧
          ((Document.ofSource other).comments.map Comment.text =
              (Document.ofSource source).comments.map Comment.text →
            (Document.ofSource source).problems = [] →
              ∀ config : LayoutConfig, format config other = format config source)) ∧
      ((TokenStream.ofSource source).problems = [] ∨
          (TokenStream.ofSource (withReturns source)).problems = [] →
        SameMeaning source (withReturns source) ∧
          ((Document.ofSource source).problems = [] → ∀ config : LayoutConfig,
            format config (withReturns source) = format config source)) := by
  constructor
  · intro other hlexical hrespaced
    have halike := hrespaced.alike hlexical
    exact ⟨sameMeaning_of_alike halike, fun htexts hproblems config =>
      format_of_alike halike htexts hproblems config⟩
  · intro hlexical
    have halike := (lexes_withReturns hlexical).imp fun a b h => SourceLine.Alike.mk h.1 h.2.1
      (by
        obtain ⟨-, -, kinds, comment, ha, hb⟩ := h
        exact ⟨kinds, comment, comment, ha, hb, id⟩)
    exact ⟨sameMeaning_of_alike halike, fun hproblems config =>
      format_of_alike halike (map_text_comments_withReturns hlexical) hproblems config⟩

theorem respacing_keeps_meaning_wav :
    let source := "WAV x\"y\"PCM # c"
    let other := "\tWAV  x \"y\"PCM# c\r"
    SameMeaning source other ∧
      (∀ config : LayoutConfig, format config other = format config source) ∧
      SameMeaning source (withReturns source) := by
  intro source other
  have hlexical : (TokenStream.ofSource source).problems = [] := by decide +kernel
  have hproblems : (Document.ofSource source).problems = [] := by decide +kernel
  have hcomments : (Document.ofSource other).comments.map Comment.text =
      (Document.ofSource source).comments.map Comment.text := by decide +kernel
  have htokens : (SourceLine.held ⟨1, 0, source.toList, true⟩).tokens =
      [⟨.keyword .wav, ⟨0, 3⟩, 1, 1⟩, ⟨.ident "x", ⟨4, 5⟩, 1, 5⟩, ⟨.string "y", ⟨5, 8⟩, 1, 6⟩,
        ⟨.ident "PCM", ⟨8, 11⟩, 1, 9⟩] := by
    decide +kernel
  have hrespaced : Respaced source other := by
    have hlines : sourceLines source.toList = [⟨1, 0, source.toList, true⟩] := by decide +kernel
    have hpieces : pieces other.toList = [other.toList] := by decide +kernel
    rw [Respaced, hlines, hpieces]
    refine .cons ⟨['\t'] ++ ("WAV".toList ++ ([' ', ' '] ++ (['x'] ++ ([' '] ++
      ("\"y\"".toList ++ ([] ++ ("PCM".toList ++ []))))))), [] ++ '#' :: " c\r".toList, _,
      by decide, ?_, .comment (by simp) (by decide), by decide +kernel⟩ .nil
    rw [htokens]
    have hblank : isInlineBlank ' ' ∧ isInlineBlank '\t' := by decide
    exact .cons (by simp [hblank]) (by simp) (by decide +kernel)
      (.cons (by simp [hblank]) (by simp) (by decide +kernel)
        (.cons (by simp [hblank]) (by simp) (by decide +kernel)
          (.cons (by simp) (by simp) (by decide +kernel) .nil)))
  obtain ⟨hrespacing, hreturns⟩ := respacing_keeps_meaning source
  obtain ⟨hsame, hformat⟩ := hrespacing other hlexical hrespaced
  exact ⟨hsame, hformat hcomments hproblems, (hreturns (.inl hlexical)).1⟩

end ResourceDecl
