import Mathlib.Data.List.Pairwise
import ResourceDecl.Proofs.CommandLine.Runs

/-!
# Dry runs and writes

A dry run changes nothing, and a run that writes rewrites the files that are due for a change and
nothing else (`FileTree.Reformats`). Both name the same files in the same order.
-/

namespace ResourceDecl

open Text

/-- A change as a run with diffs prints it. -/
def Change.diff (c : Change) : String :=
  "--- " ++ c.path.display ++ "\n" ++ (lineDiff c.old c.new).getD "" ++ "\n"

namespace FileTree

variable {tree : FileTree} {config : LayoutConfig} {path : RawText} {paths : List RawText}

/-- No two of the paths lead to one file. -/
def Distinct (tree : FileTree) (paths : List RawText) : Prop :=
  paths.Pairwise fun path other => ¬ tree.SameFile path other

instance : Decidable (tree.Distinct paths) :=
  inferInstanceAs (Decidable (paths.Pairwise fun path other => ¬ tree.SameFile path other))

instance : Std.Symm fun path other => ¬ tree.SameFile path other :=
  ⟨fun _ _ h hsame => h hsame.symm⟩

theorem Distinct.of_keeps {after : FileTree} (h : tree.Distinct paths) (hkeeps : tree.Keeps after) :
    after.Distinct paths :=
  h.imp fun hother hsame => hother (hkeeps.sameFile_iff.mp hsame)

/-! ## Rewriting files that are distinct -/

theorem openFile_foldl_rewrite {other : RawText}
    (hother : ∀ path ∈ paths, ¬ tree.SameFile path other) :
    (paths.foldl (rewrite config) tree).openFile other = tree.openFile other := by
  induction paths generalizing tree with
  | nil => rfl
  | cons path paths ih =>
    obtain ⟨hfirst, hrest⟩ := List.forall_mem_cons.mp hother
    have hkeeps := keeps_rewrite config tree path
    have hlater : ∀ p ∈ paths, ¬ (tree.rewrite config path).SameFile p other :=
      fun p hp hsame => hrest p hp (hkeeps.sameFile_iff.mp hsame)
    rw [List.foldl_cons, ih hlater, openFile_rewrite fun _ _ => hfirst]

/-- What no file that is due for a change is found at stays as it is. -/
theorem find?_foldl_rewrite (hdistinct : tree.Distinct paths) {place : Place}
    (hplace : ∀ path ∈ paths, ∀ c, tree.change? config path = some c →
      ∀ file, tree.openFile path = .ok file → file.place ≠ place) :
    (paths.foldl (rewrite config) tree).find? place = tree.find? place := by
  induction paths generalizing tree with
  | nil => rfl
  | cons path paths ih =>
    obtain ⟨hfirst, hrest⟩ := List.forall_mem_cons.mp hplace
    obtain ⟨hother, hlater⟩ := List.pairwise_cons.mp hdistinct
    have hkeeps := keeps_rewrite config tree path
    rw [List.foldl_cons, ih (Distinct.of_keeps hlater hkeeps), find?_rewrite hfirst]
    -- the rest is due for the changes that it was due for
    intro p hp c hc file hfile
    rw [change?_rewrite_other fun _ _ => hother p hp] at hc
    rw [openFile_rewrite fun _ _ => hother p hp] at hfile
    exact hrest p hp c hc file hfile

theorem content_foldl_rewrite (hdistinct : tree.Distinct paths)
    (hwritable : ∀ path ∈ paths, tree.AllowsWriting path) {c : Change} (hpath : path ∈ paths)
    (hc : tree.change? config path = some c) :
    (paths.foldl (rewrite config) tree).content path = .ok c.new.toUTF8 := by
  induction paths generalizing tree with
  | nil => cases hpath
  | cons first paths ih =>
    obtain ⟨hfirst, hrest⟩ := List.forall_mem_cons.mp hwritable
    obtain ⟨hother, hlater⟩ := List.pairwise_cons.mp hdistinct
    have hkeeps := keeps_rewrite config tree first
    rw [List.foldl_cons]
    cases hpath with
    | head =>
      -- written at once, and no file that follows is the same one
      have hafter : ∀ p ∈ paths, ¬ (tree.rewrite config path).SameFile p path :=
        fun p hp hsame => hother p hp (hkeeps.sameFile_iff.mp hsame).symm
      rw [content, openFile_foldl_rewrite hafter, ← content]
      exact content_rewrite hfirst hc
    | tail _ hmem =>
      refine ih (Distinct.of_keeps hlater hkeeps) (fun p hp => (hrest p hp).of_keeps hkeeps) hmem ?_
      rw [change?_rewrite_other fun _ _ => hother path hmem, hc]

/-! ## Runs that write -/

/-- A file that the path stands for is at the place and due for a change. -/
def DueAt (tree : FileTree) (config : LayoutConfig) (path : RawText) (place : Place) : Prop :=
  ∃ c file, c.path ∈ tree.sources path ∧ tree.Due config c ∧
    tree.openFile c.path = .ok file ∧ file.place = place

/-- The second tree is the first one with the files rewritten that the path stands for and that are
due for a change; nothing else is different. -/
structure Reformats (tree after : FileTree) (config : LayoutConfig) (path : RawText) : Prop where
  keeps : tree.Keeps after
  changed_iff (place : Place) :
    after.find? place ≠ tree.find? place ↔ tree.DueAt config path place
  content_eq (c : Change) : c.path ∈ tree.sources path → tree.Due config c →
    after.content c.path = .ok c.new.toUTF8
  openFile_eq (other : RawText) : other ∈ tree.sources path →
    (∀ old new, ¬ tree.Due config ⟨other, old, new⟩) → after.openFile other = tree.openFile other

/-- A file that is written is not what it was. -/
theorem find?_ne_of_content {after : FileTree} (hkeeps : tree.Keeps after) {c : Change}
    {file : OpenFile} (hdue : tree.Due config c) (hfile : tree.openFile c.path = .ok file)
    (hcontent : after.content c.path = .ok c.new.toUTF8) :
    after.find? file.place ≠ tree.find? file.place := by
  intro hfind
  have hopen : after.openFile c.path = tree.openFile c.path := by
    refine hkeeps.openFile_eq_of_find? fun held hheld => ?_
    cases hfile.symm.trans hheld
    exact hfind
  rw [content, hopen, ← content, hdue.holds.1] at hcontent
  exact hdue.differs (String.toByteArray_inj.mp (Except.ok.inj hcontent))

theorem find?_of_not_dueAt (hdistinct : tree.Distinct (tree.sources path)) {place : Place}
    (hnot : ¬ tree.DueAt config path place) :
    ((tree.sources path).foldl (rewrite config) tree).find? place = tree.find? place := by
  refine find?_foldl_rewrite hdistinct fun p hp c hc file hfile hplace => ?_
  obtain ⟨rfl, hdue⟩ := change?_eq_some_iff.mp hc
  exact hnot ⟨c, file, hp, hdue, hfile, hplace⟩

/-- A file that is not due is not at the place of one that is. -/
theorem not_dueAt_of_distinct (hdistinct : tree.Distinct (tree.sources path)) {other : RawText}
    {held : OpenFile} (hother : other ∈ tree.sources path) (hheld : tree.openFile other = .ok held)
    (hnot : ∀ old new, ¬ tree.Due config ⟨other, old, new⟩) :
    ¬ tree.DueAt config path held.place := by
  rintro ⟨c, file, hc, hdue, hfile, hplace⟩
  have hne : c.path ≠ other := by
    rintro rfl
    exact hnot c.old c.new hdue
  exact hdistinct.forall hc hother hne ⟨file, held, hfile, hheld, hplace⟩

theorem reformats_foldl_rewrite (hwritable : tree.Writable path)
    (hdistinct : tree.Distinct (tree.sources path)) :
    tree.Reformats ((tree.sources path).foldl (rewrite config) tree) config path := by
  have hkeeps := Keeps.foldl (keeps_rewrite config) tree (tree.sources path)
  have hcontent (c : Change) (hc : c.path ∈ tree.sources path) (hdue : tree.Due config c) :=
    content_foldl_rewrite hdistinct hwritable hc (change?_eq_some_iff.mpr ⟨rfl, hdue⟩)
  refine ⟨hkeeps, fun place => ⟨fun hchanged => ?_, ?_⟩, hcontent, fun other hother hnot => ?_⟩
  · by_contra hplace
    exact hchanged (find?_of_not_dueAt hdistinct hplace)
  · rintro ⟨c, file, hc, hdue, hfile, rfl⟩
    exact find?_ne_of_content hkeeps hdue hfile (hcontent c hc hdue)
  · refine hkeeps.openFile_eq_of_find? fun held hheld => ?_
    exact find?_of_not_dueAt hdistinct (not_dueAt_of_distinct hdistinct hother hheld hnot)

/-! ## What is listed -/

theorem printed_of_check (diff align : Bool) :
    Change.printed ⟨true, diff, align⟩ = fun c =>
      (if diff then c.diff else "") ++ "Would reformat: " ++ c.path.display ++ "\n" := by
  funext c
  have hprinted : c.printed ⟨true, diff, align⟩ =
      (if diff then c.diff else "") ++ ("Would reformat: " ++ c.path.display ++ "\n") ++ "" := rfl
  rw [hprinted, String.append_empty, ← String.append_assoc, ← String.append_assoc]

theorem printed_of_write (align : Bool) :
    Change.printed ⟨false, false, align⟩ = fun c => "Formatted: " ++ c.path.display ++ "\n" := by
  funext c
  have hprinted : c.printed ⟨false, false, align⟩ =
      "" ++ "" ++ ("Formatted: " ++ c.path.display ++ "\n") := rfl
  rw [hprinted, String.empty_append, String.empty_append]

/-- Dry runs change nothing. A run that writes rewrites the files that are due for a change, and
prints the same files in the same order as a check does. -/
theorem reformat_writes_what_check_lists (tree : FileTree) (path : RawText) (align : Bool)
    (hwritable : tree.Writable path) (hdistinct : tree.Distinct (tree.sources path)) :
    let config : LayoutConfig := { alignKeywords := align }
    let changes := tree.changes config path
    let run := fun check diff => tree.run (.reformat path ⟨check, diff, align⟩)
    (∀ check diff, check || diff → (run check diff).2 = tree) ∧
      tree.Reformats (run false false).2 config path ∧
      (∀ c, c ∈ changes ↔ c.path ∈ tree.sources path ∧ tree.Due config c) ∧
      (∀ diff, (run true diff).1.stdout =
        String.join (changes.map fun c =>
          (if diff then c.diff else "") ++ "Would reformat: " ++ c.path.display ++ "\n") ++
        tree.closing ⟨true, diff, align⟩ path) ∧
      (run false false).1.stdout =
        String.join (changes.map fun c => "Formatted: " ++ c.path.display ++ "\n") ++
        tree.closing ⟨false, false, align⟩ path := by
  intro config changes run
  refine ⟨fun check diff hdry => ?_, ?_, fun c => mem_changes, fun diff => ?_, ?_⟩
  · simp only [run, run_reformat _ hwritable]
    exact foldl_reformatted_of_isDryRun hdry
  · simp only [run, run_reformat _ hwritable]
    rw [foldl_reformatted_of_not_isDryRun rfl]
    exact reformats_foldl_rewrite hwritable hdistinct
  · have hdry : ReformatOptions.isDryRun ⟨true, diff, align⟩ := rfl
    rw [stdout_of_undisturbed hwritable (undisturbed_of_isDryRun hdry tree _), printed_of_check]
    rfl
  · have hundisturbed : tree.Undisturbed ⟨false, false, align⟩ (tree.sources path) :=
      hdistinct.imp fun hother hdisturbs => hother hdisturbs.2.2
    rw [stdout_of_undisturbed hwritable hundisturbed, printed_of_write]
    rfl

theorem reformat_writes_what_check_lists_directory :
    let tree : FileTree := { entries := [
      (["b.res"], .file "BITMAP\n".toUTF8),
      (["a.res"], .file "BITMAP  a \"x.png\"\n".toUTF8),
      (["c.res"], .file "WAV x \"y.wav\" PCM\n".toUTF8),
      (["d"], .directory),
      (["d", "e.res"], .file "WAV x  \"y.wav\" PCM\n".toUTF8),
      (["d", "f.res"], .file "BITMAP  a \"x.png\"\n".toUTF8 { readable := false })] }
    let run := fun check diff => tree.run (.reformat "." ⟨check, diff, false⟩)
    tree.Writable "." ∧ tree.Distinct (tree.sources ".") ∧
      (run true false).2 = tree ∧ tree.Reformats (run false false).2 {} "." ∧
      (run true false).1.stdout = "Would reformat: ./a.res\nWould reformat: ./d/e.res\n" ∧
      (run false false).1.stdout =
        "Formatted: ./a.res\nFormatted: ./d/e.res\n\n✓ 2 file(s) formatted, 2 error(s)\n" := by
  intro tree run
  have hwritable : tree.Writable "." := by decide +kernel
  have hdistinct : tree.Distinct (tree.sources ".") := by decide +kernel
  obtain ⟨hdry, hreformats, -, hcheck, hwrite⟩ :=
    reformat_writes_what_check_lists tree "." false hwritable hdistinct
  refine ⟨hwritable, hdistinct, hdry true false rfl, hreformats, (hcheck false).trans ?_,
    hwrite.trans ?_⟩
  · decide +kernel
  · decide +kernel

end FileTree

end ResourceDecl
