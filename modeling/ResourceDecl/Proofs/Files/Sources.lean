import Mathlib.Data.List.Basic
import ResourceDecl.Files.Discovery
import ResourceDecl.Proofs.Files.Contents

/-!
# Sources in a tree

* `FileTree.run_sourcePaths`, `FileTree.sources_mapContents`: finding the files that a path stands
  for changes nothing, and which files are found does not depend on what they hold.
* `FileTree.run_readSource`, `FileTree.source_eq_ok_iff`: reading a source changes nothing, and
  gives the text of a readable file of at most 16 MiB in UTF-8.
-/

namespace ResourceDecl

namespace FileTree

/-! ## Looking at names -/

/-- The action changes nothing, and what it finds does not depend on the contents of files. -/
structure LooksAtNames {α : Type} (action : StateM FileTree α) : Prop where
  keeps (tree : FileTree) : (action.run tree).2 = tree
  finds (tree : FileTree) (change : Place → ByteArray → ByteArray) :
    (action.run (tree.mapContents change)).1 = (action.run tree).1

namespace LooksAtNames

variable {α β : Type}

theorem pure (a : α) : LooksAtNames (Pure.pure a : StateM FileTree α) :=
  ⟨fun _ => rfl, fun _ _ => rfl⟩

theorem look {look : FileTree → α}
    (h : ∀ tree change, look (tree.mapContents change) = look tree) :
    LooksAtNames (do return look (← get)) :=
  ⟨fun _ => rfl, h⟩

theorem bind {action : StateM FileTree α} {next : α → StateM FileTree β}
    (h : LooksAtNames action) (hnext : ∀ a, LooksAtNames (next a)) :
    LooksAtNames (action >>= next) := by
  have hrun (tree : FileTree) :
      (action >>= next).run tree = (next (action.run tree).1).run tree := by
    have hfirst : action.run tree = ((action.run tree).1, tree) := Prod.ext rfl (h.keeps tree)
    exact run_bind hfirst next
  constructor
  · intro tree
    rw [hrun, (hnext _).keeps]
  · intro tree change
    rw [hrun, hrun, h.finds, (hnext _).finds]

theorem ite {p : Prop} [Decidable p] {action other : StateM FileTree α} (h : LooksAtNames action)
    (hother : LooksAtNames other) : LooksAtNames (if p then action else other) := by
  split
  · exact h
  · exact hother

theorem mapM {action : α → StateM FileTree β} (h : ∀ a, LooksAtNames (action a)) (items : List α) :
    LooksAtNames (items.mapM action) := by
  induction items with
  | nil => exact .pure []
  | cons a items ih =>
    rw [List.mapM_cons]
    exact (h a).bind fun b => ih.bind fun bs => .pure (b :: bs)

theorem isFile (path : RawText) : LooksAtNames (access.isFile path) :=
  look fun tree change => tree.isFile_mapContents change path

theorem isDirectory (path : RawText) : LooksAtNames (access.isDirectory path) :=
  look fun tree change => congrArg Option.isSome (tree.directory?_mapContents change path)

theorem names (path : RawText) : LooksAtNames (access.names path) :=
  look fun tree change => tree.names_mapContents change path

theorem filesBelow (depth : Nat) (names : List RawText) (directory : RawText) :
    LooksAtNames (filesBelow access depth names directory) := by
  induction depth generalizing names directory with
  | zero => exact .pure []
  | succ depth ih =>
    refine (LooksAtNames.names directory).bind fun found => ?_
    refine (mapM (fun name => ?_) found).bind fun files => .pure _
    refine (isDirectory _).bind fun isDirectory => .ite ?_ ?_
    · exact .ite (.pure []) (ih _ _)
    · exact .pure _

theorem sourcePaths (path : RawText) : LooksAtNames (sourcePaths access path) :=
  (isFile path).bind fun _ => .ite (.pure [path]) ((filesBelow _ _ _).bind fun _ => .pure _)

end LooksAtNames

/-- The declaration files that a path stands for. -/
def sources (tree : FileTree) (path : RawText) : List RawText :=
  ((sourcePaths access path).run tree).1

theorem run_sourcePaths (tree : FileTree) (path : RawText) :
    (sourcePaths access path).run tree = (tree.sources path, tree) :=
  Prod.ext rfl ((LooksAtNames.sourcePaths path).keeps tree)

theorem sources_mapContents (tree : FileTree) (change : Place → ByteArray → ByteArray)
    (path : RawText) : (tree.mapContents change).sources path = tree.sources path :=
  (LooksAtNames.sourcePaths path).finds tree change

theorem Keeps.sources_eq {tree after : FileTree} (h : tree.Keeps after) (path : RawText) :
    after.sources path = tree.sources path := by
  obtain ⟨change, rfl⟩ := h
  exact tree.sources_mapContents change path

/-! ## Reading -/

/-- The source that a path leads to, or why there is none. -/
def source (tree : FileTree) (path : RawText) : Except SourceError String := do
  let size ← (tree.size path).mapError (.inaccessible path)
  if size > maxSourceSize then .error (.tooLarge path size)
  else decodeSource path (← (tree.content path).mapError (.unreadable path))

section

variable {tree : FileTree} {path : RawText} {size : Nat} {reason : AccessError} {bytes : ByteArray}

theorem source_of_inaccessible (hsize : tree.size path = .error reason) :
    tree.source path = .error (.inaccessible path reason) := by
  simp [source, hsize, Except.mapError, bind, Except.bind]

theorem source_of_large (hsize : tree.size path = .ok size) (hlarge : maxSourceSize < size) :
    tree.source path = .error (.tooLarge path size) := by
  simp [source, hsize, hlarge, Except.mapError, bind, Except.bind]

theorem source_of_unreadable (hsize : tree.size path = .ok size) (hsmall : size ≤ maxSourceSize)
    (hcontent : tree.content path = .error reason) :
    tree.source path = .error (.unreadable path reason) := by
  simp [source, hsize, Nat.not_lt.mpr hsmall, hcontent, Except.mapError, bind, Except.bind]

theorem source_of_content (hsize : tree.size path = .ok size) (hsmall : size ≤ maxSourceSize)
    (hcontent : tree.content path = .ok bytes) :
    tree.source path = decodeSource path bytes := by
  simp [source, hsize, Nat.not_lt.mpr hsmall, hcontent, Except.mapError, bind, Except.bind]

end

theorem run_readSource (tree : FileTree) (path : RawText) :
    (readSource access path).run tree = (tree.source path, tree) := by
  simp only [readSource, access]
  cases hsize : tree.size path with
  | error reason =>
    simp [hsize, source_of_inaccessible hsize]
    rfl
  | ok size =>
    by_cases hlarge : maxSourceSize < size
    · simp [hsize, hlarge, source_of_large hsize hlarge]
      rfl
    · have hsmall : size ≤ maxSourceSize := Nat.not_lt.mp hlarge
      cases hcontent : tree.content path with
      | error reason =>
        simp [hsize, hlarge, hcontent, source_of_unreadable hsize hsmall hcontent]
        rfl
      | ok bytes =>
        simp [hsize, hlarge, hcontent, source_of_content hsize hsmall hcontent]
        rfl

/-- The path leads to a readable file of at most 16 MiB that holds the text in UTF-8. -/
def Holds (tree : FileTree) (path : RawText) (text : String) : Prop :=
  tree.content path = .ok text.toUTF8 ∧ text.utf8ByteSize ≤ maxSourceSize

theorem size_of_content {tree : FileTree} {path : RawText} {bytes : ByteArray}
    (h : tree.content path = .ok bytes) : tree.size path = .ok bytes.size := by
  obtain ⟨file, hfile, -, rfl⟩ := content_eq_ok_iff.mp h
  obtain ⟨hlocate, hplace⟩ := openFile_eq_ok_iff.mp hfile
  have hdirectory : tree.directory? path = none := by
    simp [directory?, hlocate, directoryMode?, hplace]
  rw [size, hdirectory, hfile]
  rfl

theorem decodeSource_eq_ok_iff {path : RawText} {bytes : ByteArray} {text : String} :
    decodeSource path bytes = .ok text ↔ bytes = text.toUTF8 := by
  rw [decodeSource, ← fromUTF8?_eq_some_iff]
  cases String.fromUTF8? bytes <;> simp

theorem source_eq_ok_iff {tree : FileTree} {path : RawText} {text : String} :
    tree.source path = .ok text ↔ tree.Holds path text := by
  constructor
  · intro h
    cases hsize : tree.size path with
    | error reason =>
      rw [source_of_inaccessible hsize] at h
      cases h
    | ok size =>
      by_cases hlarge : maxSourceSize < size
      · rw [source_of_large hsize hlarge] at h
        cases h
      · have hsmall : size ≤ maxSourceSize := Nat.not_lt.mp hlarge
        cases hcontent : tree.content path with
        | error reason =>
          rw [source_of_unreadable hsize hsmall hcontent] at h
          cases h
        | ok bytes =>
          rw [source_of_content hsize hsmall hcontent, decodeSource_eq_ok_iff] at h
          subst h
          cases hsize.symm.trans (size_of_content hcontent)
          exact ⟨hcontent, hsmall⟩
  · rintro ⟨hcontent, hsmall⟩
    rw [source_of_content (size_of_content hcontent) hsmall hcontent, decodeSource_eq_ok_iff]

theorem Keeps.source_eq {tree after : FileTree} (h : tree.Keeps after) {path : RawText}
    (hfile : after.openFile path = tree.openFile path) : after.source path = tree.source path := by
  have hdirectory : after.directory? path = tree.directory? path := by
    obtain ⟨change, rfl⟩ := h
    exact tree.directory?_mapContents change path
  simp only [source, size, content, hdirectory, hfile]

end FileTree

end ResourceDecl
