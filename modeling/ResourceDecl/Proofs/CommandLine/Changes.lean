import ResourceDecl.CommandLine.Reformat
import ResourceDecl.Proofs.Files.Sources
import ResourceDecl.Proofs.Layout.NormalForm

/-!
# What the formatting of files changes

A file is due for a change if it can be read, has no problems and differs from its formatted text.

* `FileTree.change?`, `FileTree.change?_eq_some_iff`: the change that a file is due for.
* `FileTree.rewrite`: the tree behind the formatting of one file. It differs in that file only
  (`FileTree.find?_rewrite`, `FileTree.openFile_rewrite`).
* `FileTree.change?_rewrite_self`, `FileTree.change?_rewrite_of_settled`: the file is settled then,
  that is, not due for a change, and files that were settled still are.
-/

namespace ResourceDecl

open Text

/-- A file with its text and its formatted text. -/
structure Change where
  path : RawText
  old : String
  new : String
deriving DecidableEq

namespace FileTree

/-! ## Changes -/

/-- The file can be read, has no problems, and differs from its formatted text. -/
structure Due (tree : FileTree) (config : LayoutConfig) (c : Change) : Prop where
  holds : tree.Holds c.path c.old
  sound : (Document.ofSource c.old).problems = []
  formatted :
    config.format (Document.ofSource c.old).program (Document.ofSource c.old).comments = c.new
  differs : c.old ≠ c.new

/-- The change that a file is due for. -/
def change? (tree : FileTree) (config : LayoutConfig) (path : RawText) : Option Change :=
  match judge config (tree.source path) with
  | .unformatted old new => some ⟨path, old, new⟩
  | _ => none

/-- The changes that the files are due for that a path stands for, in their order. -/
def changes (tree : FileTree) (config : LayoutConfig) (path : RawText) : List Change :=
  (tree.sources path).filterMap (tree.change? config)

variable {tree : FileTree} {config : LayoutConfig} {path : RawText} {c : Change}

theorem judge_eq_unformatted_iff {source : Except SourceError String} {old new : String} :
    judge config source = .unformatted old new ↔
      source = .ok old ∧ format config old = .ok new ∧ old ≠ new := by
  constructor
  · intro h
    unfold judge at h
    split at h
    · cases h
    · split at h
      · cases h
      · rename_i hformat
        split at h
        · cases h
        · rename_i hdiffers
          cases h
          exact ⟨rfl, hformat, hdiffers⟩
  · rintro ⟨rfl, hformat, hdiffers⟩
    simp [judge, hformat, hdiffers]

theorem change?_eq_some_iff_judge :
    tree.change? config path = some c ↔
      c.path = path ∧ judge config (tree.source path) = .unformatted c.old c.new := by
  rw [change?]
  constructor
  · intro h
    split at h
    · rename_i hjudge
      cases h
      exact ⟨rfl, hjudge⟩
    · cases h
  · rintro ⟨rfl, hjudge⟩
    rw [hjudge]

theorem change?_eq_some_iff :
    tree.change? config path = some c ↔ c.path = path ∧ tree.Due config c := by
  rw [change?_eq_some_iff_judge, judge_eq_unformatted_iff, source_eq_ok_iff, format_eq_ok_iff]
  constructor
  · rintro ⟨rfl, holds, ⟨sound, formatted⟩, differs⟩
    exact ⟨rfl, holds, sound, formatted, differs⟩
  · rintro ⟨rfl, holds, sound, formatted, differs⟩
    exact ⟨rfl, holds, ⟨sound, formatted⟩, differs⟩

theorem mem_changes :
    c ∈ tree.changes config path ↔ c.path ∈ tree.sources path ∧ tree.Due config c := by
  rw [changes, List.mem_filterMap]
  constructor
  · rintro ⟨p, hp, hc⟩
    obtain ⟨rfl, hdue⟩ := change?_eq_some_iff.mp hc
    exact ⟨hp, hdue⟩
  · rintro ⟨hp, hdue⟩
    exact ⟨_, hp, change?_eq_some_iff.mpr ⟨rfl, hdue⟩⟩

/-! ## Writing changes -/

/-- No write to the file is refused. -/
def AllowsWriting (tree : FileTree) (path : RawText) : Prop :=
  ∀ file, tree.openFile path = .ok file → file.mode.writable

instance : Decidable (tree.AllowsWriting path) :=
  match hfile : tree.openFile path with
  | .ok file =>
    decidable_of_iff file.mode.writable
      ⟨fun h held hheld => by
        cases hfile.symm.trans hheld
        exact h, fun h => h file hfile⟩
  | .error _ => isTrue fun _ hheld => nomatch hfile.symm.trans hheld

/-- The tree behind the formatting of a file. -/
def rewrite (config : LayoutConfig) (tree : FileTree) (path : RawText) : FileTree :=
  match tree.change? config path with
  | some c => (tree.write path c.new).toOption.getD tree
  | none => tree

theorem write_of_allowsWriting (hwritable : tree.AllowsWriting path) (hdue : tree.Due config c)
    (hpath : c.path = path) : tree.write path c.new = .ok (tree.rewrite config path) := by
  subst hpath
  obtain ⟨file, hfile, -, -⟩ := content_eq_ok_iff.mp hdue.holds.1
  have hwrite : tree.write c.path c.new = .ok (tree.replace file.place c.new.toUTF8) :=
    write_eq_ok_iff.mpr ⟨file, hfile, hwritable file hfile, rfl⟩
  have hc := change?_eq_some_iff.mpr ⟨rfl, hdue⟩
  simp only [rewrite, hc, hwrite, Except.toOption, Option.getD_some]

theorem rewrite_of_change?_eq_none (h : tree.change? config path = none) :
    tree.rewrite config path = tree := by
  rw [rewrite, h]

/-- Formatting a file leaves the tree as it is or writes the change that the file is due for. -/
theorem rewrite_cases (config : LayoutConfig) (tree : FileTree) (path : RawText) :
    tree.rewrite config path = tree ∨ ∃ c, tree.change? config path = some c ∧
      tree.write path c.new = .ok (tree.rewrite config path) := by
  rw [rewrite]
  cases hc : tree.change? config path with
  | none => exact .inl rfl
  | some c =>
    cases hwrite : tree.write path c.new with
    | error reason =>
      left
      simp only [hwrite, Except.toOption, Option.getD_none]
    | ok after =>
      right
      exact ⟨c, rfl, by simp only [hwrite, Except.toOption, Option.getD_some]⟩

theorem keeps_rewrite (config : LayoutConfig) (tree : FileTree) (path : RawText) :
    tree.Keeps (tree.rewrite config path) := by
  obtain hsame | ⟨c, -, hwrite⟩ := rewrite_cases config tree path
  · rw [hsame]
    exact .refl tree
  · exact keeps_of_write hwrite

theorem AllowsWriting.of_keeps {after : FileTree} (hwritable : tree.AllowsWriting path)
    (h : tree.Keeps after) : after.AllowsWriting path := by
  obtain ⟨change, rfl⟩ := h
  intro file hfile
  rw [openFile_mapContents] at hfile
  cases hheld : tree.openFile path with
  | error reason =>
    rw [hheld] at hfile
    cases hfile
  | ok held =>
    rw [hheld] at hfile
    cases hfile
    exact hwritable held hheld

/-- A file changes only if it is due or is another name of a file that is. -/
theorem openFile_rewrite {other : RawText}
    (hother : ∀ c, tree.change? config path = some c → ¬ tree.SameFile path other) :
    (tree.rewrite config path).openFile other = tree.openFile other := by
  obtain hsame | ⟨c, hc, hwrite⟩ := rewrite_cases config tree path
  · rw [hsame]
  · exact openFile_of_write hwrite (hother c hc)

theorem find?_rewrite {place : Place}
    (hother : ∀ c, tree.change? config path = some c →
      ∀ file, tree.openFile path = .ok file → file.place ≠ place) :
    (tree.rewrite config path).find? place = tree.find? place := by
  obtain hsame | ⟨c, hc, hwrite⟩ := rewrite_cases config tree path
  · rw [hsame]
  · exact find?_of_write hwrite (hother c hc)

theorem content_rewrite (hwritable : tree.AllowsWriting path)
    (hc : tree.change? config path = some c) :
    (tree.rewrite config path).content path = .ok c.new.toUTF8 := by
  obtain ⟨rfl, hdue⟩ := change?_eq_some_iff.mp hc
  exact content_of_write (write_of_allowsWriting hwritable hdue rfl) hdue.holds.1

/-! ## Settled files -/

theorem Due.format_new (hdue : tree.Due config c) : format config c.new = .ok c.new := by
  obtain ⟨hclean, hlayout⟩ := Document.ofSource_format config hdue.sound
  have hformat := format_of_sameLayout hdue.sound hclean hlayout config
  rw [hdue.formatted] at hformat
  exact hformat.trans (format_eq_ok_iff.mpr ⟨hdue.sound, hdue.formatted⟩)

/-- A file that holds the formatted text of a file is not due for a change. -/
theorem change?_of_content (hdue : tree.Due config c) {after : FileTree} {other : RawText}
    (hcontent : after.content other = .ok c.new.toUTF8) : after.change? config other = none := by
  refine Option.eq_none_iff_forall_not_mem.mpr fun d hd => ?_
  obtain ⟨rfl, hagain⟩ := change?_eq_some_iff.mp hd
  have hold : d.old = c.new := by
    have h := hagain.holds.1.symm.trans hcontent
    exact String.toByteArray_inj.mp (Except.ok.inj h)
  have hnew := format_eq_ok_iff.mpr ⟨hagain.sound, hagain.formatted⟩
  rw [hold, hdue.format_new] at hnew
  exact hagain.differs (hold.trans (Except.ok.inj hnew))

theorem change?_rewrite_self (hwritable : tree.AllowsWriting path) :
    (tree.rewrite config path).change? config path = none := by
  cases hc : tree.change? config path with
  | none => rw [rewrite_of_change?_eq_none hc, hc]
  | some c => exact change?_of_content (change?_eq_some_iff.mp hc).2 (content_rewrite hwritable hc)

theorem change?_rewrite_other {other : RawText}
    (hother : ∀ c, tree.change? config path = some c → ¬ tree.SameFile path other) :
    (tree.rewrite config path).change? config other = tree.change? config other := by
  rw [change?, change?, (keeps_rewrite config tree path).source_eq (openFile_rewrite hother)]

/-- A settled file stays settled, also if it is written under another name. -/
theorem change?_rewrite_of_settled (hwritable : tree.AllowsWriting path) {other : RawText}
    (hsettled : tree.change? config other = none) :
    (tree.rewrite config path).change? config other = none := by
  by_cases hother : ∀ c, tree.change? config path = some c → ¬ tree.SameFile path other
  · rw [change?_rewrite_other hother, hsettled]
  · -- the file is written under another name, so it holds a formatted text
    push Not at hother
    obtain ⟨c, hc, hsame⟩ := hother
    have hafter := (keeps_rewrite config tree path).sameFile_iff.mpr hsame
    refine change?_of_content (change?_eq_some_iff.mp hc).2 ?_
    rw [← hafter.content_eq]
    exact content_rewrite hwritable hc

end FileTree

end ResourceDecl
