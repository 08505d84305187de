import Mathlib.Data.List.DropRight
import Mathlib.Data.Prod.Lex
import ResourceDecl.Proofs.Places.Positions

/-!
# The order of positions

Positions are ordered by line, and on a line by column. Whoever reads on comes to a greater
position, so that the offsets between characters and their positions determine each other.

* `Position.lt_advance`, `Position.lt_foldl_advance`: a character leads further, and so does a
  part of a text.
* `foldl_advance_first`: the line and the column behind a text, said of the text alone.
* `positionFrom?_of_le`, `isBoundary_of_positionFrom?`: offsets behind the end, and offsets inside
  a character.
* `lt_of_position?`, `position?_inj`: greater offsets have greater positions, and no two offsets
  share one.
* `positions_increase`: the result.
-/

namespace ResourceDecl.Text

/-! ## Positions -/

namespace Position

/-- Line and column in the lexicographic order. -/
def key (p : Position) : Nat ×ₗ Nat :=
  toLex (p.line, p.column)

instance : Preorder Position := Preorder.lift key

theorem lt_iff {p q : Position} :
    p < q ↔ p.line < q.line ∨ p.line = q.line ∧ p.column < q.column :=
  Prod.Lex.lt_iff

theorem lt_advance (p : Position) (c : Char) : p < p.advance c := by
  rw [lt_iff, advance]
  split
  · exact .inl (Nat.lt_succ_self _)
  · exact .inr ⟨rfl, Nat.lt_succ_self _⟩

theorem lt_foldl_advance (p : Position) {part : List Char} (h : part ≠ []) :
    p < part.foldl advance p := by
  induction part generalizing p with
  | nil => exact absurd rfl h
  | cons c part ih =>
    rw [List.foldl_cons]
    rcases eq_or_ne part [] with rfl | hpart
    · exact p.lt_advance c
    · exact (p.lt_advance c).trans (ih _ hpart)

end Position

/-- A line for each line feed, and on the last line a column for each character of it. -/
theorem foldl_advance_first (before : List Char) :
    before.foldl Position.advance .first =
      ⟨before.count '\n' + 1, (before.rtakeWhile (· ≠ '\n')).length + 1⟩ := by
  -- from the right: a line begins behind the text exactly where its last character is a line feed
  induction before using List.reverseRecOn with
  | nil => rfl
  | append_singleton before c ih =>
    rw [List.foldl_append, ih, List.foldl_cons, List.foldl_nil, Position.advance,
      List.count_append]
    by_cases hc : c = '\n'
    · rw [if_pos hc, List.rtakeWhile_concat_neg _ _ _ (by simp [hc]), hc]
      rfl
    · rw [if_neg hc, List.rtakeWhile_concat_pos _ _ _ (by simp [hc]), List.length_append,
        List.count_singleton, if_neg (by simpa using hc)]
      rfl

/-! ## Offsets -/

variable {text : List Char} {offset i j : Nat} {p q : Position}

theorem positionFrom?_of_le (p : Position) (h : byteLength text ≤ offset) :
    positionFrom? p text offset = some (text.foldl Position.advance p) := by
  fun_induction positionFrom? p text offset with
  | case1 text p =>
    rw [eq_nil_of_byteLength (Nat.le_zero.mp h)]
    rfl
  | case2 => rfl
  | case3 p c text offset _ ih =>
    rw [byteLength_cons] at h
    exact ih (by omega)
  | case4 p c text offset hsize =>
    rw [byteLength_cons] at h
    omega

/-- An offset behind the end stands for the end. -/
theorem position?_of_le (h : byteLength text ≤ offset) :
    position? text offset = position? text (byteLength text) := by
  rw [position?, position?, positionFrom?_of_le _ h, positionFrom?_of_le _ (Nat.le_refl _)]

theorem IsBoundary.exists_position? (h : IsBoundary text offset) :
    ∃ p, position? text offset = some p := by
  obtain ⟨before, after, rfl, rfl⟩ := h
  exact ⟨_, position?_append before after⟩

/-- An offset inside a character has no position. -/
theorem isBoundary_of_positionFrom? (hle : offset ≤ byteLength text)
    (h : positionFrom? p text offset = some q) : IsBoundary text offset := by
  fun_induction positionFrom? p text offset with
  | case1 text p => exact ⟨[], text, rfl, rfl⟩
  | case2 => cases hle
  | case3 p c text offset hsize ih =>
    rw [byteLength_cons] at hle
    obtain ⟨before, after, rfl, hbefore⟩ := ih (by omega) h
    refine ⟨c :: before, after, rfl, ?_⟩
    rw [byteLength_cons]
    omega
  | case4 => cases h

/-- Between two offsets stands a part of the text, which leads from one position to the other. -/
theorem lt_of_position? (hi : IsBoundary text i) (hj : IsBoundary text j) (hlt : i < j)
    (hp : position? text i = some p) (hq : position? text j = some q) : p < q := by
  have hlies : (Span.mk i j).LiesIn text := Span.liesIn_of_boundaries (Nat.le_of_lt hlt) hi hj
  obtain ⟨place, part, hmarks⟩ := Span.liesIn_iff_marks.mp hlies
  have hpart : part ≠ [] := by
    rintro rfl
    obtain ⟨-, -, -, -, hstop, -⟩ := hmarks
    exact absurd hstop.symm (Nat.ne_of_lt hlt)
  obtain rfl : place = p := Option.some.inj (hmarks.position?_start.symm.trans hp)
  obtain rfl := Option.some.inj (hmarks.position?_stop.symm.trans hq)
  exact place.lt_foldl_advance hpart

theorem position?_inj (hi : i ≤ byteLength text) (hj : j ≤ byteLength text)
    (hp : position? text i = some p) (hq : position? text j = some p) : i = j := by
  have hleft := isBoundary_of_positionFrom? hi hp
  have hright := isBoundary_of_positionFrom? hj hq
  rcases Nat.lt_trichotomy i j with hlt | heq | hlt
  · exact absurd (lt_of_position? hleft hright hlt hp hq) (lt_irrefl p)
  · exact heq
  · exact absurd (lt_of_position? hright hleft hlt hq hp) (lt_irrefl p)

/-- Of two offsets between characters the greater one has the greater position, so that a position
belongs to one offset of the text at most. The line is one more than the line feeds in front of the
offset, the column one more than the characters behind the last of them, and an offset behind the
end has the position of the end. -/
theorem positions_increase (text : List Char) :
    (∀ i j, IsBoundary text i → IsBoundary text j → i < j →
        ∃ p q, position? text i = some p ∧ position? text j = some q ∧ p < q) ∧
      (∀ i j p, i ≤ byteLength text → j ≤ byteLength text → position? text i = some p →
        position? text j = some p → i = j) ∧
      (∀ before after, text = before ++ after → position? text (byteLength before) =
        some ⟨before.count '\n' + 1, (before.rtakeWhile (· ≠ '\n')).length + 1⟩) ∧
      ∀ offset, byteLength text ≤ offset →
        position? text offset = position? text (byteLength text) := by
  refine ⟨fun i j hi hj hlt => ?_, fun i j p => position?_inj, ?_, fun offset => position?_of_le⟩
  · obtain ⟨p, hp⟩ := hi.exists_position?
    obtain ⟨q, hq⟩ := hj.exists_position?
    exact ⟨p, q, hp, hq, lt_of_position? hi hj hlt hp hq⟩
  · rintro before after rfl
    rw [position?_append, foldl_advance_first]

/-- A letter of two bytes, a line feed, and the end behind one more letter. -/
theorem positions_increase_two_lines :
    (∃ p q, position? ['ä', '\n', 'b'] 2 = some p ∧ position? ['ä', '\n', 'b'] 3 = some q ∧
        p < q) ∧
      position? ['ä', '\n', 'b'] 3 = some ⟨2, 1⟩ ∧
      position? ['ä', '\n', 'b'] 9 = position? ['ä', '\n', 'b'] 4 := by
  obtain ⟨hless, -, hexact, hend⟩ := positions_increase ['ä', '\n', 'b']
  exact ⟨hless 2 3 ⟨['ä'], ['\n', 'b'], rfl, rfl⟩ ⟨['ä', '\n'], ['b'], rfl, rfl⟩ (by decide),
    hexact ['ä', '\n'] ['b'] rfl, hend 9 (by decide)⟩

end ResourceDecl.Text
