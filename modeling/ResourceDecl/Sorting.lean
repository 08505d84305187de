/-!
# Merging and sorting

Problems are listed in the order of their places, files in the order of their names. Both orders
come from merging: of two items that rank alike, the one of the first list comes first.

* `mergeBy_eq_merge`, `sortBy_eq_mergeSort`: merging and sorting are those of the standard library.
* `sortBy_perm`, `pairwise_sortBy`: sorting keeps the items and puts them in order.
* `sortBy_append`: lists in order, one behind the other, are sorted by merging them.
-/

namespace ResourceDecl

variable {α : Type}

/-- Merge two ordered lists. -/
def mergeBy (le : α → α → Bool) (xs ys : List α) : List α :=
  match xs, ys with
  | [], ys => ys
  | xs, [] => xs
  | x :: xs, y :: ys =>
    if le x y then x :: mergeBy le xs (y :: ys) else y :: mergeBy le (x :: xs) ys
termination_by xs.length + ys.length

/-- Sort a list by merging its items one behind the other. -/
def sortBy (le : α → α → Bool) : List α → List α
  | [] => []
  | x :: xs => mergeBy le [x] (sortBy le xs)

theorem mergeBy_eq_merge (le : α → α → Bool) (xs ys : List α) :
    mergeBy le xs ys = xs.merge ys le := by
  fun_induction mergeBy le xs ys with
  | case1 => simp
  | case2 => simp
  | case3 x xs y ys h ih => rw [List.cons_merge_cons, if_pos h, ih]
  | case4 x xs y ys h ih => rw [List.cons_merge_cons, if_neg h, ih]

theorem mergeBy_perm (le : α → α → Bool) (xs ys : List α) :
    (mergeBy le xs ys).Perm (xs ++ ys) := by
  rw [mergeBy_eq_merge]
  exact List.merge_perm_append le

theorem sortBy_perm (le : α → α → Bool) (xs : List α) : (sortBy le xs).Perm xs := by
  induction xs with
  | nil => exact .nil
  | cons x xs ih => exact (mergeBy_perm le [x] (sortBy le xs)).trans (ih.cons x)

theorem sortBy_eq_nil_iff {le : α → α → Bool} {xs : List α} : sortBy le xs = [] ↔ xs = [] := by
  rw [← List.length_eq_zero_iff, (sortBy_perm le xs).length_eq, List.length_eq_zero_iff]

section Steps

variable {le : α → α → Bool}

theorem mergeBy_cons_left {x : α} {xs ys : List α} (h : ∀ y ∈ ys, le x y) :
    mergeBy le (x :: xs) ys = x :: mergeBy le xs ys := by
  cases ys with
  | nil => cases xs <;> simp [mergeBy]
  | cons y ys => rw [mergeBy, if_pos (h y List.mem_cons_self)]

theorem mergeBy_cons_right {y : α} {xs ys : List α} (h : ∀ x ∈ xs, ¬ le x y) :
    mergeBy le xs (y :: ys) = y :: mergeBy le xs ys := by
  cases xs with
  | nil => simp [mergeBy]
  | cons x xs => rw [mergeBy, if_neg (h x List.mem_cons_self)]

/-- One item is merged in front of the first one that it does not rank behind. -/
theorem mergeBy_singleton {x : α} {front behind : List α} (hfront : ∀ y ∈ front, ¬ le x y)
    (hbehind : ∀ y ∈ behind, le x y) :
    mergeBy le [x] (front ++ behind) = front ++ x :: behind := by
  induction front with
  | nil => rw [List.nil_append, mergeBy_cons_left hbehind, mergeBy, List.nil_append]
  | cons y front ih =>
    obtain ⟨hy, hfront⟩ := List.forall_mem_cons.mp hfront
    rw [List.cons_append, mergeBy_cons_right (by simpa using hy), ih hfront, List.cons_append]

theorem sortBy_of_pairwise {xs : List α} (h : xs.Pairwise fun a b => le a b) :
    sortBy le xs = xs := by
  induction xs with
  | nil => rfl
  | cons x xs ih =>
    obtain ⟨hx, hxs⟩ := List.pairwise_cons.mp h
    rw [sortBy, ih hxs, mergeBy_cons_left hx, mergeBy]

end Steps

section Sorted

variable {le : α → α → Bool} (htrans : ∀ a b c, le a b → le b c → le a c)

include htrans

/-- Merging sorts, and items that rank alike keep their order. -/
theorem sortBy_eq_mergeSort (htotal : ∀ a b, le a b || le b a) (xs : List α) :
    sortBy le xs = xs.mergeSort le := by
  induction xs with
  | nil => simp [sortBy]
  | cons x xs ih =>
    obtain ⟨front, behind, hsorted, hrest, hfront⟩ := List.mergeSort_cons htrans htotal x xs
    have hbehind : ∀ y ∈ behind, le x y := by
      have hpairs := List.pairwise_mergeSort htrans htotal (x :: xs)
      rw [hsorted] at hpairs
      exact (List.pairwise_cons.mp (List.pairwise_append.mp hpairs).2.1).1
    rw [sortBy, ih, hrest, hsorted]
    exact mergeBy_singleton (fun y hy => by simpa using hfront y hy) hbehind

theorem pairwise_sortBy (htotal : ∀ a b, le a b || le b a) (xs : List α) :
    (sortBy le xs).Pairwise fun a b => le a b := by
  rw [sortBy_eq_mergeSort htrans htotal]
  exact List.pairwise_mergeSort htrans htotal xs

/-- Merging one more item behind a merge that it ranks in front of. -/
theorem mergeBy_mergeBy {x : α} {xs ys : List α} (hx : ∀ a ∈ xs, le x a)
    (hys : ys.Pairwise fun a b => le a b) :
    mergeBy le [x] (mergeBy le xs ys) = mergeBy le (x :: xs) ys := by
  induction ys with
  | nil =>
    have hnil (zs : List α) : mergeBy le zs [] = zs := by cases zs <;> simp [mergeBy]
    rw [hnil, hnil, mergeBy_cons_left hx, mergeBy]
  | cons y ys ih =>
    obtain ⟨hy, hys⟩ := List.pairwise_cons.mp hys
    by_cases hxy : le x y
    · have hall : ∀ b ∈ y :: ys, le x b :=
        List.forall_mem_cons.mpr ⟨hxy, fun b hb => htrans x y b hxy (hy b hb)⟩
      rw [mergeBy_cons_left hall, mergeBy_cons_left, mergeBy]
      intro b hb
      exact (List.mem_append.mp ((mergeBy_perm le xs (y :: ys)).mem_iff.mp hb)).elim (hx b) (hall b)
    · have hnone : ∀ a ∈ xs, ¬ le a y := fun a ha hay => hxy (htrans x a y (hx a ha) hay)
      rw [mergeBy_cons_right hnone, mergeBy_cons_right (by simpa using hxy), ih hys,
        mergeBy_cons_right (List.forall_mem_cons.mpr ⟨hxy, hnone⟩)]

theorem sortBy_append {xs ys : List α} (hxs : xs.Pairwise fun a b => le a b)
    (hys : ys.Pairwise fun a b => le a b) : sortBy le (xs ++ ys) = mergeBy le xs ys := by
  induction xs with
  | nil => rw [List.nil_append, mergeBy, sortBy_of_pairwise hys]
  | cons x xs ih =>
    obtain ⟨hx, hxs⟩ := List.pairwise_cons.mp hxs
    rw [List.cons_append, sortBy, ih hxs, mergeBy_mergeBy htrans hx hys]

end Sorted

end ResourceDecl
