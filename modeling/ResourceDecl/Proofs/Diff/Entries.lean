import Mathlib.Data.List.Basic
import Mathlib.Order.MinMax
import ResourceDecl.Text.LineDiff
import ResourceDecl.Proofs.Tokens.Numerals

/-!
# Entries of a line diff

A diff is a text made of entries (`DiffEntry`), one for each line that it shows.

* `toList_join_diffLines`: the text of a diff is that of its entries, one behind the other.
* `mem_shownEntries`: which lines are shown, by their numbers.
* `eq_of_flatMap_text`: the text determines the entries, whatever the lines hold, as long as no line
  holds a line feed.
-/

namespace ResourceDecl.Text

/-- A line as a diff shows it: its mark, its number, and what it holds. -/
structure DiffEntry where
  mark : Char
  number : Nat
  line : List Char
deriving DecidableEq

namespace DiffEntry

def text (e : DiffEntry) : List Char :=
  (diffEntry e.mark e.number e.line).toList

/-- The entry shows a line that is not empty and holds no line feed. -/
structure Shows (e : DiffEntry) : Prop where
  line_ne_nil : e.line ≠ []
  not_mem : '\n' ∉ e.line

end DiffEntry

/-- The line at an index; behind the last line all lines are empty. -/
def lineAt (lines : List (List Char)) (i : Nat) : List Char :=
  lines[i]?.getD []

/-! ## The entries of two lists of lines -/

/-- A line that is not empty as an entry. -/
def entryOf (mark : Char) (number : Nat) (line : List Char) : List DiffEntry :=
  if line.isEmpty then [] else [⟨mark, number, line⟩]

/-- The entries of a line number. -/
def entriesAt (number : Nat) (old new : List Char) : List DiffEntry :=
  if old = new then [] else entryOf '-' number old ++ entryOf '+' number new

/-- The entries of two lists of lines. -/
def shownEntries (old new : List (List Char)) : List DiffEntry :=
  ((sideBySide old new).zipIdx 1).flatMap fun ((a, b), number) => entriesAt number a b

theorem flatMap_text_entryOf (mark : Char) (number : Nat) (line : List Char) :
    (entryOf mark number line).flatMap DiffEntry.text = (diffEntry mark number line).toList := by
  by_cases h : line.isEmpty
  · rw [entryOf, diffEntry, if_pos h, if_pos h]
    rfl
  · rw [entryOf, if_neg h, List.flatMap_singleton]
    rfl

theorem flatMap_text_entriesAt (number : Nat) (old new : List Char) :
    (entriesAt number old new).flatMap DiffEntry.text = (diffEntries number old new).toList := by
  by_cases h : old = new
  · rw [entriesAt, diffEntries, if_pos h, if_pos h]
    rfl
  · rw [entriesAt, diffEntries, if_neg h, if_neg h, List.flatMap_append, flatMap_text_entryOf,
      flatMap_text_entryOf, String.toList_append]

/-- The text of a diff is that of its entries. -/
theorem toList_join_diffLines (old new : List (List Char)) :
    (String.join (diffLines old new)).toList = (shownEntries old new).flatMap DiffEntry.text := by
  rw [String.toList_join, diffLines, shownEntries, List.flatMap_map, List.flatMap_assoc]
  simp only [flatMap_text_entriesAt]

theorem lineAt_of_length_le {lines : List (List Char)} {i : Nat} (h : lines.length ≤ i) :
    lineAt lines i = [] := by
  rw [lineAt, List.getElem?_eq_none h]
  rfl

theorem sideBySide_eq (old new : List (List Char)) :
    sideBySide old new =
      (List.range (max old.length new.length)).map fun i => (lineAt old i, lineAt new i) := by
  refine List.ext_getElem? fun i => ?_
  rw [sideBySide, List.getElem?_zipWithAll, List.getElem?_map]
  by_cases hi : i < max old.length new.length
  · rw [List.getElem?_range hi, Option.map_some, lineAt, lineAt]
    rcases lt_max_iff.mp hi with hi | hi
    · rw [List.getElem?_eq_getElem hi]
    · rw [List.getElem?_eq_getElem hi]
      cases old[i]? <;> rfl
  · obtain ⟨hold, hnew⟩ := max_le_iff.mp (Nat.not_lt.mp hi)
    have hrange : (List.range (max old.length new.length)).length ≤ i := by
      rw [List.length_range]
      exact Nat.not_lt.mp hi
    rw [List.getElem?_eq_none hold, List.getElem?_eq_none hnew, List.getElem?_eq_none hrange]
    rfl

theorem zipIdx_map_range {α : Type} (f : Nat → α) (n : Nat) :
    ((List.range n).map f).zipIdx 1 = (List.range n).map fun i => (f i, i + 1) := by
  refine List.ext_getElem? fun i => ?_
  rw [List.getElem?_zipIdx, List.getElem?_map, List.getElem?_map, Option.map_map]
  by_cases hi : i < n
  · rw [List.getElem?_range hi, Option.map_some, Option.map_some, Nat.add_comm 1 i]
    rfl
  · rw [List.getElem?_eq_none (by simpa using hi)]
    rfl

/-- The entries line by line, up to any number behind the last line. -/
theorem shownEntries_eq {old new : List (List Char)} {n : Nat} (hold : old.length ≤ n)
    (hnew : new.length ≤ n) :
    shownEntries old new =
      (List.range n).flatMap fun i => entriesAt (i + 1) (lineAt old i) (lineAt new i) := by
  obtain ⟨k, rfl⟩ := Nat.exists_eq_add_of_le (max_le hold hnew)
  have hbehind : (List.range k).flatMap (fun i =>
      entriesAt (max old.length new.length + i + 1)
        (lineAt old (max old.length new.length + i))
        (lineAt new (max old.length new.length + i))) = [] := by
    refine List.flatMap_eq_nil_iff.mpr fun i _ => ?_
    rw [@lineAt_of_length_le old _ (by omega), @lineAt_of_length_le new _ (by omega)]
    rfl
  rw [shownEntries, sideBySide_eq, zipIdx_map_range, List.range_add, List.flatMap_append,
    List.flatMap_map, List.flatMap_map, hbehind, List.append_nil]

theorem mem_entryOf {e : DiffEntry} {mark : Char} {number : Nat} {line : List Char} :
    e ∈ entryOf mark number line ↔ line ≠ [] ∧ e = ⟨mark, number, line⟩ := by
  unfold entryOf
  cases line <;> simp

theorem mem_entriesAt {e : DiffEntry} {number : Nat} {old new : List Char} :
    e ∈ entriesAt number old new ↔ old ≠ new ∧
      (old ≠ [] ∧ e = ⟨'-', number, old⟩ ∨ new ≠ [] ∧ e = ⟨'+', number, new⟩) := by
  by_cases h : old = new
  · simp [entriesAt, h]
  · rw [entriesAt, if_neg h, List.mem_append, mem_entryOf, mem_entryOf]
    exact (and_iff_right h).symm

/-- The lines that a diff shows: of every number at which the lines differ, those of the two that are
not empty. -/
theorem mem_shownEntries {old new : List (List Char)} {e : DiffEntry} :
    e ∈ shownEntries old new ↔ ∃ i, lineAt old i ≠ lineAt new i ∧
      (lineAt old i ≠ [] ∧ e = ⟨'-', i + 1, lineAt old i⟩ ∨
        lineAt new i ≠ [] ∧ e = ⟨'+', i + 1, lineAt new i⟩) := by
  rw [shownEntries_eq (le_max_left _ _) (le_max_right _ _), List.mem_flatMap]
  simp only [mem_entriesAt, List.mem_range]
  constructor
  · rintro ⟨i, -, he⟩
    exact ⟨i, he⟩
  · rintro ⟨i, hdiffers, he⟩
    refine ⟨i, ?_, hdiffers, he⟩
    by_contra hi
    obtain ⟨hold, hnew⟩ := max_le_iff.mp (Nat.not_lt.mp hi)
    exact hdiffers (by rw [lineAt_of_length_le hold, lineAt_of_length_le hnew])

/-! ## The text determines the entries -/

theorem toDigits_append_inj {m n : Nat} {rest next : List Char}
    (h : Nat.toDigits 10 m ++ ' ' :: rest = Nat.toDigits 10 n ++ ' ' :: next) :
    m = n ∧ rest = next := by
  have hblank (text : List Char) : StopsAt isDigitOrSeparator (' ' :: text) :=
    stopsAt_cons.mpr (by decide)
  have hdigits (k : Nat) : Nat.toDigits 10 k = (toString (k : Int)).toList := by
    rw [toList_toString]
    rfl
  rw [hdigits, hdigits] at h
  obtain ⟨hnumber, htail⟩ := toString_append_inj (hblank rest) (hblank next) h
  exact ⟨Int.natCast_inj.mp hnumber, (List.cons.inj htail).2⟩

/-- Blanks in front of a number do not hide where it starts. -/
theorem padLeft_append_inj {width m n : Nat} {rest next : List Char}
    (h : (padLeft width (toString m)).toList ++ ' ' :: rest =
      (padLeft width (toString n)).toList ++ ' ' :: next) : m = n ∧ rest = next := by
  have hdrop (k : Nat) (text : List Char) :
      ((padLeft width (toString k)).toList ++ ' ' :: text).dropWhile (· == ' ') =
        Nat.toDigits 10 k ++ ' ' :: text := by
    rw [padLeft, String.toList_append, String.toList_ofList, List.append_assoc,
      Nat.toString_eq_repr, Nat.toList_repr]
    refine dropWhile_append_of_stopsAt (fun c hc => ?_) fun c hc => ?_
    · rw [List.eq_of_mem_replicate hc]
      rfl
    · rw [List.head?_append_of_ne_nil _ Nat.toDigits_ne_nil] at hc
      have hdigit := Nat.isDigit_of_mem_toDigits (by decide) (by decide) (List.mem_of_mem_head? hc)
      rw [beq_eq_false_iff_ne]
      rintro rfl
      cases hdigit
  have hrest := congrArg (List.dropWhile (· == ' ')) h
  rw [hdrop, hdrop] at hrest
  exact toDigits_append_inj hrest

theorem lineFeed_append_inj {line other rest next : List Char} (hline : '\n' ∉ line)
    (hother : '\n' ∉ other) (h : line ++ '\n' :: rest = other ++ '\n' :: next) :
    line = other ∧ rest = next := by
  have hcut (text tail : List Char) (hplain : '\n' ∉ text) :
      (text ++ '\n' :: tail).takeWhile (· != '\n') = text :=
    takeWhile_append_of_stopsAt
      (fun c hc => bne_iff_ne.mpr (ne_of_mem_of_not_mem hc hplain)) (stopsAt_cons.mpr rfl)
  have hsame : line = other := by
    rw [← hcut line rest hline, h, hcut other next hother]
  subst hsame
  exact ⟨rfl, (List.cons.inj (List.append_cancel_left h)).2⟩

namespace DiffEntry

variable {e f : DiffEntry} {rest next : List Char}

theorem Shows.text_eq (h : e.Shows) :
    e.text = e.mark :: ((padLeft 4 (toString e.number)).toList ++
      ' ' :: '|' :: ' ' :: (e.line ++ ['\n'])) := by
  have hline : e.line.isEmpty = false := by simpa using h.line_ne_nil
  rw [text, diffEntry, hline]
  simp

theorem Shows.text_ne_nil (h : e.Shows) : e.text ≠ [] := by
  rw [h.text_eq]
  exact List.cons_ne_nil _ _

/-- An entry is told apart from every other one and from what follows it. -/
theorem Shows.append_inj (he : e.Shows) (hf : f.Shows) (h : e.text ++ rest = f.text ++ next) :
    e = f ∧ rest = next := by
  rw [he.text_eq, hf.text_eq] at h
  simp only [List.cons_append, List.append_assoc, List.nil_append] at h
  obtain ⟨hmark, hbehind⟩ := List.cons.inj h
  obtain ⟨hnumber, hbar⟩ := padLeft_append_inj hbehind
  obtain ⟨hline, hrest⟩ := lineFeed_append_inj he.not_mem hf.not_mem
    (List.cons.inj (List.cons.inj hbar).2).2
  obtain ⟨mark, number, line⟩ := e
  cases hmark
  cases hnumber
  cases hline
  exact ⟨rfl, hrest⟩

end DiffEntry

/-- Entries that show lines are determined by their text. -/
theorem eq_of_flatMap_text {es fs : List DiffEntry} (hes : ∀ e ∈ es, e.Shows)
    (hfs : ∀ f ∈ fs, f.Shows) (h : es.flatMap DiffEntry.text = fs.flatMap DiffEntry.text) :
    es = fs := by
  induction es generalizing fs with
  | nil =>
    cases fs with
    | nil => rfl
    | cons f fs =>
      have hnil := (List.append_eq_nil_iff.mp h.symm).1
      exact absurd hnil (hfs f List.mem_cons_self).text_ne_nil
  | cons e es ih =>
    obtain ⟨he, hrest⟩ := List.forall_mem_cons.mp hes
    cases fs with
    | nil => exact absurd (List.append_eq_nil_iff.mp h).1 he.text_ne_nil
    | cons f fs =>
      obtain ⟨hf, hnext⟩ := List.forall_mem_cons.mp hfs
      obtain ⟨rfl, htail⟩ := he.append_inj hf h
      rw [ih hrest hnext htail]

end ResourceDecl.Text
