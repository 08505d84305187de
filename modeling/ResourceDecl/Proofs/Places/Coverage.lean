import Mathlib.Data.List.Flatten
import Mathlib.Data.List.Nodup
import Mathlib.Data.List.Perm.Basic
import ResourceDecl.Proofs.Places.Located

/-!
# What tokens and comments cover

The tokens and the comments of a source lie one behind the other, and what lies between them is
blank: no character that can be seen is lost.

* `Tiles`: ranges that cover a text but for blanks, with `Tiles.append` to put texts together.
* `Tiles.pairwise`, `Tiles.covers`: what a tiling says of its ranges and of the characters.
* `scanRest_tiles`: the step, what the scanner finds on a line.
* `tiles_ofSource`: by induction over the lines, what it finds in a source.
* `TokenStream.spans_eq`: the ranges in the order of their starts are those of the tiling.
* `visible_characters_covered`: the result.
-/

namespace ResourceDecl

open Text

/-! ## Tilings -/

/-- The ranges lie one behind the other in a text that begins at the offset, none of them is empty,
and what lies between them is blank. -/
inductive Tiles : Nat → List Char → List Span → Prop
  | blank {start : Nat} {text : List Char} : (∀ c ∈ text, isBlank c) → Tiles start text []
  | part {start : Nat} {gap part rest : List Char} {spans : List Span} :
      (∀ c ∈ gap, isBlank c) → part ≠ [] →
        Tiles (start + byteLength gap + byteLength part) rest spans →
        Tiles start (gap ++ (part ++ rest))
          (⟨start + byteLength gap, start + byteLength gap + byteLength part⟩ :: spans)

theorem byteLength_pos {text : List Char} (h : text ≠ []) : 0 < byteLength text := by
  cases text with
  | nil => exact absurd rfl h
  | cons c text =>
    have hc := c.utf8Size_pos
    rw [byteLength_cons]
    omega

theorem eq_nil_of_byteLength {text : List Char} (h : byteLength text = 0) : text = [] := by
  by_contra hne
  exact absurd h (Nat.ne_of_gt (byteLength_pos hne))

/-- A character of two texts put together stands in the first one or in the second one. -/
theorem append_eq_append_cons {α : Type} {a b before after : List α} {c : α}
    (h : a ++ b = before ++ c :: after) :
    (∃ behind, a = before ++ c :: behind) ∨
      ∃ front, before = a ++ front ∧ b = front ++ c :: after := by
  rcases List.append_eq_append_iff.mp h with ⟨front, hbefore, hb⟩ | ⟨behind, ha, hafter⟩
  · exact .inr ⟨front, hbefore, hb⟩
  · cases behind with
    | nil => exact .inr ⟨[], by simpa using ha.symm, hafter.symm⟩
    | cons d behind =>
      obtain ⟨rfl, -⟩ := List.cons.inj hafter
      exact .inl ⟨behind, ha⟩

namespace Tiles

variable {start : Nat} {text : List Char} {spans : List Span}

/-- Blanks in front of a tiled text. -/
theorem behind_blanks {blanks : List Char} (hblanks : ∀ c ∈ blanks, isBlank c)
    (h : Tiles (start + byteLength blanks) text spans) : Tiles start (blanks ++ text) spans := by
  cases h with
  | blank htext =>
    apply blank
    intro c hc
    exact (List.mem_append.mp hc).elim (hblanks c) (htext c)
  | @part _ gap part rest spans hgap hpart hrest =>
    have hall : ∀ c ∈ blanks ++ gap, isBlank c := fun c hc =>
      (List.mem_append.mp hc).elim (hblanks c) (hgap c)
    rw [Nat.add_assoc start, ← byteLength_append] at hrest ⊢
    rw [← List.append_assoc]
    exact .part hall hpart hrest

/-- A tiled text behind a tiled text. -/
theorem append {behind : List Char} {more : List Span} (h : Tiles start text spans)
    (hbehind : Tiles (start + byteLength text) behind more) :
    Tiles start (text ++ behind) (spans ++ more) := by
  induction h with
  | blank htext => exact hbehind.behind_blanks htext
  | @part start gap part rest spans hgap hpart _ ih =>
    rw [byteLength_append, byteLength_append, ← Nat.add_assoc, ← Nat.add_assoc] at hbehind
    rw [List.append_assoc, List.append_assoc]
    exact .part hgap hpart (ih hbehind)

theorem start_le (h : Tiles start text spans) : ∀ span ∈ spans, start ≤ span.start := by
  induction h with
  | blank => simp
  | part _ _ _ ih =>
    refine List.forall_mem_cons.mpr ⟨Nat.le_add_right _ _, fun span hm => ?_⟩
    have hle := ih span hm
    omega

theorem start_lt_stop (h : Tiles start text spans) : ∀ span ∈ spans, span.start < span.stop := by
  induction h with
  | blank => simp
  | part _ hpart _ ih =>
    exact List.forall_mem_cons.mpr ⟨Nat.lt_add_of_pos_right (byteLength_pos hpart), ih⟩

theorem pairwise (h : Tiles start text spans) :
    spans.Pairwise fun a b => a.start < b.start ∧ a.stop ≤ b.start := by
  induction h with
  | blank => exact .nil
  | part _ hpart hrest ih =>
    refine .cons (fun span hm => ?_) ih
    have hle := hrest.start_le span hm
    have hpos := byteLength_pos hpart
    refine ⟨?_, hle⟩
    show _ + _ < _
    omega

/-- Every character is blank or lies in one of the ranges. -/
theorem covers (h : Tiles start text spans) {before after : List Char} {c : Char}
    (htext : text = before ++ c :: after) :
    isBlank c ∨ ∃ span ∈ spans, span.start ≤ start + byteLength before ∧
      start + byteLength before + c.utf8Size ≤ span.stop := by
  induction h generalizing before with
  | blank hblank => exact .inl (hblank c (by simp [htext]))
  | @part start gap part rest spans hgap hpart _ ih =>
    rcases append_eq_append_cons htext with ⟨behind, rfl⟩ | ⟨front, rfl, hfront⟩
    · exact .inl (hgap c (by simp))
    · rcases append_eq_append_cons hfront with ⟨behind, rfl⟩ | ⟨front, rfl, hrest⟩
      · refine .inr ⟨_, List.mem_cons_self, ?_⟩
        simp only [byteLength_append, byteLength_cons]
        omega
      · refine (ih hrest).imp_right ?_
        rintro ⟨span, hm, hstart, hstop⟩
        refine ⟨span, List.mem_cons_of_mem _ hm, ?_⟩
        simp only [byteLength_append]
        omega

end Tiles

/-! ## Lines -/

theorem trimEnd_ne_nil {first : Char} {tail : List Char} (h : isBlank first = false) :
    trimEnd (first :: tail) ≠ [] := by
  intro hnil
  have hcut := trimEnd_append (first :: tail)
  rw [hnil, List.nil_append] at hcut
  have hfirst : isBlank first := isBlank_of_mem_trimmed (hcut ▸ List.mem_cons_self)
  rw [h] at hfirst
  cases hfirst

/-- What the scanner finds on a line covers the line. -/
theorem scanRest_tiles (line : Nat) (seen : Bool) (start column : Nat) (rest : List Char) :
    Tiles start rest ((scanRest line seen start column rest).tokens.map Token.span ++
      (scanRest line seen start column rest).comment.toList.map Comment.span) := by
  have hgap (rest : List Char) : ∀ c ∈ rest.takeWhile isInlineBlank, isBlank c := fun c hc =>
    isBlank_of_isInlineBlank (List.mem_takeWhile_imp hc)
  induction seen, start, column, rest using scanRest.induct line with
  | case1 _ _ _ rest hs =>
    have hall := List.dropWhile_eq_nil_iff.mp hs
    rw [scanRest_blank hs]
    exact .blank fun c hc => isBlank_of_isInlineBlank (hall c hc)
  | case2 _ start _ rest first tail hs hc =>
    have hrest := gap_append hs
    rw [← trimEnd_append (first :: tail)] at hrest
    have hbehind : ∀ c ∈ trimmed (first :: tail), isBlank c := fun c => isBlank_of_mem_trimmed
    have htiles : Tiles start (_ ++ (trimEnd (first :: tail) ++ _)) _ :=
      .part (hgap rest) (trimEnd_ne_nil (not_blank_of_opensComment hc)) (.blank hbehind)
    rw [hrest] at htiles
    rw [scanRest_comment hs hc]
    exact htiles
  | case3 seen start column rest gap _ _ first tail hs hc kind next hr text stop ih =>
    obtain ⟨hrest, hne⟩ := lexeme_append hs hr
    have htiles := Tiles.part (hgap rest) hne ih
    rw [hrest] at htiles
    rw [scanRest_token hs hc hr]
    exact htiles
  | case4 _ start _ rest first tail hs hc fault next hr =>
    have htiles : Tiles start (_ ++ (first :: tail ++ [])) _ :=
      .part (hgap rest) (List.cons_ne_nil first tail) (.blank (List.forall_mem_nil _))
    rw [List.append_nil, gap_append hs] at htiles
    rw [scanRest_fault hs hc hr]
    exact htiles

namespace SourceLine

/-- The line feed behind the tokens of a line, if there is one of each. -/
def ending (line : SourceLine) : List Token :=
  if line.held.tokens.isEmpty || line.isLast then [] else [line.newline]

/-- The ranges of what stands on the line, one behind the other. -/
def spans (line : SourceLine) : List Span :=
  line.held.tokens.map Token.span ++ line.held.comment.toList.map Comment.span ++
    line.ending.map Token.span

variable {line : SourceLine}

theorem scan_tokens_eq (line : SourceLine) :
    line.scan.tokens = line.held.tokens ++ line.ending := by
  rw [scan, ending, held]
  split
  · rw [List.append_nil]
  · rfl

/-- The tokens and the comment of a line have its ranges, though in another order. -/
theorem spans_perm (line : SourceLine) :
    (line.scan.tokens.map Token.span ++ line.held.comment.toList.map Comment.span).Perm
      line.spans := by
  rw [scan_tokens_eq, spans, List.map_append, List.append_assoc, List.append_assoc]
  exact List.perm_append_comm.append_left _

theorem tokens_sublist_spans (line : SourceLine) :
    (line.scan.tokens.map Token.span).Sublist line.spans := by
  rw [scan_tokens_eq, spans, List.map_append, List.append_assoc]
  exact (List.sublist_append_right _ _).append_left _

theorem comment_sublist_spans (line : SourceLine) :
    (line.held.comment.toList.map Comment.span).Sublist line.spans :=
  (List.sublist_append_right _ _).trans (List.sublist_append_left _ _)

theorem tiles_of_last (h : line.isLast) : Tiles line.start line.text line.spans := by
  have htiles := scanRest_tiles line.number false line.start 1 line.text
  rw [spans, ending, if_pos (by simp [h]), List.map_nil, List.append_nil]
  exact htiles

/-- The line feed behind a line with tokens is covered, and any other one is a blank. -/
theorem tiles_of_not_last (h : line.isLast = false) :
    Tiles line.start (line.text ++ ['\n']) line.spans := by
  apply (scanRest_tiles line.number false line.start 1 line.text).append
  rw [ending, h, Bool.or_false]
  split
  · refine .blank fun c hc => ?_
    rw [List.mem_singleton.mp hc]
    decide
  · exact @Tiles.part _ [] ['\n'] [] [] (List.forall_mem_nil _) (List.cons_ne_nil _ _)
      (.blank (List.forall_mem_nil _))

end SourceLine

/-! ## Sources -/

theorem tiles_numberLines {number start : Nat} {texts : List (List Char)} (h : texts ≠ []) :
    Tiles start (['\n'].intercalate texts)
      ((numberLines number start texts).flatMap SourceLine.spans) := by
  fun_induction numberLines number start texts with
  | case1 => exact absurd rfl h
  | case2 number start text =>
    rw [List.flatMap_singleton, List.intercalate_singleton]
    exact @SourceLine.tiles_of_last ⟨number, start, text, true⟩ rfl
  | case3 number start text rest hrest ih =>
    have hline := @SourceLine.tiles_of_not_last ⟨number, start, text, false⟩ rfl
    rw [List.flatMap_cons, List.intercalate_cons_of_ne_nil hrest]
    apply hline.append
    show Tiles (start + byteLength (text ++ ['\n'])) _ _
    rw [byteLength_append, ← Nat.add_assoc]
    exact ih hrest

/-- The tokens of a source and its comments cover the source but for blanks. -/
theorem tiles_ofSource (text : List Char) :
    Tiles 0 text ((sourceLines text).flatMap SourceLine.spans) := by
  have htiles := @tiles_numberLines 1 0 _ (pieces_ne_nil text)
  rwa [intercalate_pieces] at htiles

namespace TokenStream

/-- The ranges of the tokens and of the comments in the order of their starts, the token for the
end aside. -/
def spans (stream : TokenStream) : List Span :=
  sortBy (fun a b => decide (a.start ≤ b.start))
    ((stream.tokens.filter fun token => token.kind != .done).map Token.span ++
      stream.comments.map Comment.span)

variable (source : String)

theorem filter_tokens_ofSource :
    ((ofSource source).tokens.filter fun token => token.kind != .done) =
      (sourceLines source.toList).flatMap fun line => line.scan.tokens := by
  have hkept : ∀ token ∈ (sourceLines source.toList).flatMap fun line => line.scan.tokens,
      (token.kind != .done) = true := fun token hm => bne_iff_ne.mpr (ne_done_of_mem_lines token hm)
  rw [tokens_ofSource, List.filter_append, List.filter_eq_self.mpr hkept]
  exact List.append_nil _

theorem comments_ofSource :
    (ofSource source).comments.map Comment.span =
      (sourceLines source.toList).flatMap fun line =>
        line.held.comment.toList.map Comment.span := by
  show (Document.ofSource source).comments.map Comment.span = _
  rw [Document.comments_ofSource, List.filterMap_eq_flatMap_toList, List.map_flatMap]

/-- Sorted by their starts, the ranges are those of the lines, one line behind the other. -/
theorem spans_eq :
    (ofSource source).spans = (sourceLines source.toList).flatMap SourceLine.spans := by
  have htiles := tiles_ofSource source.toList
  have hperm : (ofSource source).spans.Perm
      ((sourceLines source.toList).flatMap SourceLine.spans) := by
    apply (sortBy_perm _ _).trans
    rw [filter_tokens_ofSource, comments_ofSource, List.map_flatMap]
    apply (List.flatMap_append_perm _ _ _).trans
    exact List.Perm.flatMap_left _ fun line _ => line.spans_perm
  have hsorted : (ofSource source).spans.Pairwise fun a b => a.start ≤ b.start := by
    apply (pairwise_sortBy _ _ _).imp
    · simp
    · simp
      omega
    · simp
      omega
  have hstrict := htiles.pairwise.imp fun h => h.1
  -- ranges that start alike are the same, since no two of them do
  apply List.Perm.eq_of_pairwise _ hsorted (hstrict.imp Nat.le_of_lt) hperm
  intro a b ha hb hab hba
  have hnodup := List.pairwise_map.mpr (hstrict.imp Nat.ne_of_lt)
  exact List.inj_on_of_nodup_map hnodup (hperm.subset ha) hb (Nat.le_antisymm hab hba)

/-- What is found line by line stands in the order of the lines. -/
theorem pairwise_flatMap_of_sublist {found : SourceLine → List Span}
    (h : ∀ line, (found line).Sublist line.spans) :
    ((sourceLines source.toList).flatMap found).Pairwise fun a b =>
      a.start < b.start ∧ a.stop ≤ b.start :=
  (tiles_ofSource source.toList).pairwise.sublist (.flatMap_right _ fun line _ => h line)

theorem pairwise_comments :
    (ofSource source).comments.Pairwise fun c d =>
      c.span.start < d.span.start ∧ c.span.stop ≤ d.span.start := by
  have hfound := pairwise_flatMap_of_sublist source SourceLine.comment_sublist_spans
  rw [← comments_ofSource] at hfound
  exact List.pairwise_map.mp hfound

/-- Tokens stand one behind the other, and the end stands behind all of them. -/
theorem pairwise_tokens :
    (ofSource source).tokens.Pairwise fun a b =>
      a.span.start < b.span.start ∧ a.span.stop ≤ b.span.start := by
  have hfound := pairwise_flatMap_of_sublist source SourceLine.tokens_sublist_spans
  rw [← List.map_flatMap] at hfound
  rw [tokens_ofSource]
  refine List.pairwise_append.mpr ⟨List.pairwise_map.mp hfound, List.pairwise_singleton _ _, ?_⟩
  intro token hm last hlast
  obtain ⟨line, hline, hm⟩ := List.mem_flatMap.mp hm
  have hspan : token.span ∈ line.spans :=
    line.tokens_sublist_spans.subset (List.mem_map_of_mem hm)
  have hpart : token.span.start < token.span.stop :=
    (tiles_ofSource source.toList).start_lt_stop _ (List.mem_flatMap.mpr ⟨line, hline, hspan⟩)
  obtain ⟨part, before, after, htext, hstart, hstop, -⟩ := SourceLine.marks_of_mem_scan hline hm
  have hend : token.span.stop ≤ byteLength source.toList := by
    rw [htext, hstop, hstart, byteLength_append, byteLength_append]
    omega
  rw [List.mem_singleton.mp hlast]
  exact ⟨Nat.lt_of_lt_of_le hpart hend, hend⟩

/-- No two tokens start at the same offset. -/
theorem start_inj {source : String} {a b : Token} (ha : a ∈ (ofSource source).tokens)
    (hb : b ∈ (ofSource source).tokens) (h : a.span.start = b.span.start) : a = b := by
  have hne := (pairwise_tokens source).imp fun hlt => Nat.ne_of_lt hlt.1
  exact List.inj_on_of_nodup_map (List.pairwise_map.mpr hne) ha hb h

end TokenStream

/-- The ranges of the tokens and of the comments, in the order of their starts, are not empty and
lie one behind the other, and every character outside of them is white space. Tokens and comments
are listed in the order of their places, and the one token for the end of the source has an empty
range there. -/
theorem visible_characters_covered (source : String) :
    let text := source.toList
    let stream := TokenStream.ofSource source
    (∀ span ∈ stream.spans, span.start < span.stop) ∧
      (stream.spans.Pairwise fun a b => a.start < b.start ∧ a.stop ≤ b.start) ∧
      (∀ before c after, text = before ++ c :: after → isBlank c ∨
        ∃ span ∈ stream.spans, span.start ≤ byteLength before ∧
          byteLength (before ++ [c]) ≤ span.stop) ∧
      (stream.tokens.Pairwise fun a b =>
        a.span.start < b.span.start ∧ a.span.stop ≤ b.span.start) ∧
      (stream.comments.Pairwise fun c d =>
        c.span.start < d.span.start ∧ c.span.stop ≤ d.span.start) ∧
      ∃ front done, stream.tokens = front ++ [done] ∧ (∀ token ∈ front, token.kind ≠ .done) ∧
        done.kind = .done ∧ done.span = ⟨byteLength text, byteLength text⟩ := by
  intro text stream
  have htiles := tiles_ofSource text
  rw [← TokenStream.spans_eq source] at htiles
  refine ⟨htiles.start_lt_stop, htiles.pairwise, ?_, TokenStream.pairwise_tokens source,
    TokenStream.pairwise_comments source, ?_⟩
  · intro before c after htext
    have hcovers := htiles.covers htext
    simp only [Nat.zero_add] at hcovers
    rw [byteLength_append]
    exact hcovers
  · exact ⟨_, endToken text, TokenStream.tokens_ofSource source, ne_done_of_mem_lines, rfl, rfl⟩

end ResourceDecl
