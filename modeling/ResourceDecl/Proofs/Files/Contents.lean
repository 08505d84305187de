import ResourceDecl.Files.Tree

/-!
# What does not depend on the contents of files

Where a path leads, what may be done there and which names a directory holds do not depend on the
contents of files (`locate_mapContents`, `directory?_mapContents`, `names_mapContents`). A write
changes contents only: it gives a new one to one file and leaves those of all others as they are
(`openFile_replace`).
-/

namespace ResourceDecl

namespace FileTree

variable (tree : FileTree) (change : Place → ByteArray → ByteArray)

/-! ## Paths -/

theorem find?_mapContents (place : Place) :
    (tree.mapContents change).find? place =
      (tree.find? place).map (FileEntry.mapContent (change place)) := by
  unfold find?
  split
  · rfl
  · simp only [mapContents, List.find?_map, Option.map_map, Function.comp_def]
    apply Option.map_congr
    intro e he
    have hplace : e.1 = place := by simpa using List.find?_some he
    rw [hplace]

theorem directoryMode?_mapContents (place : Place) :
    (tree.mapContents change).directoryMode? place = tree.directoryMode? place := by
  rw [directoryMode?, directoryMode?, find?_mapContents]
  rcases tree.find? place with _ | _ | _ | _ | _ <;> rfl

theorem enter_mapContents (place : Place) :
    (tree.mapContents change).enter place = tree.enter place := by
  rw [enter, enter, find?_mapContents]
  rcases tree.find? place with _ | _ | _ | _ | _ <;> rfl

theorem lookup_mapContents (here : Place) (name : RawText) :
    (tree.mapContents change).lookup here name = tree.lookup here name := by
  simp only [lookup, directoryMode?_mapContents, enter_mapContents]

theorem walk_mapContents (onLink : Place → List RawText → Except AccessError Place) (here : Place)
    (names : List RawText) :
    (tree.mapContents change).walk onLink here names = tree.walk onLink here names := by
  induction names generalizing here with
  | nil => rfl
  | cons name rest ih => simp only [walk, lookup_mapContents, ih]

theorem follow_mapContents (links : Nat) :
    (tree.mapContents change).follow links = tree.follow links := by
  induction links with
  | zero =>
    funext here names
    exact tree.walk_mapContents change _ here names
  | succ links ih =>
    funext here names
    rw [follow, follow, ih]
    exact tree.walk_mapContents change _ here names

theorem locate_mapContents (path : RawText) :
    (tree.mapContents change).locate path = tree.locate path := by
  rw [locate, locate, follow_mapContents]
  rfl

theorem fileAt_mapContents (place : Place) :
    (tree.mapContents change).fileAt place =
      (tree.fileAt place).map fun file =>
        { file with content := change file.place file.content } := by
  rw [fileAt, fileAt, find?_mapContents]
  rcases tree.find? place with _ | _ | _ | _ | _ <;> rfl

theorem openFile_mapContents (path : RawText) :
    (tree.mapContents change).openFile path =
      (tree.openFile path).map fun file =>
        { file with content := change file.place file.content } := by
  rw [openFile, openFile, locate_mapContents]
  cases tree.locate path with
  | error reason => rfl
  | ok place => exact tree.fileAt_mapContents change place

theorem isFile_mapContents (path : RawText) :
    (tree.mapContents change).isFile path = tree.isFile path := by
  rw [isFile, isFile, openFile_mapContents]
  cases tree.openFile path <;> rfl

theorem directory?_mapContents (path : RawText) :
    (tree.mapContents change).directory? path = tree.directory? path := by
  rw [directory?, directory?, locate_mapContents]
  cases tree.locate path with
  | error reason => rfl
  | ok place => simp only [directoryMode?_mapContents]

theorem namesIn_mapContents (directory : Place) :
    (tree.mapContents change).namesIn directory = tree.namesIn directory := by
  simp only [namesIn, mapContents, List.filterMap_map, Function.comp_def]

theorem names_mapContents (path : RawText) :
    (tree.mapContents change).names path = tree.names path := by
  simp only [names, directory?_mapContents, namesIn_mapContents]

/-! ## Files -/

variable {tree}

theorem fileAt_eq_ok_iff {place : Place} {file : OpenFile} :
    tree.fileAt place = .ok file ↔
      place = file.place ∧ tree.find? file.place = some (.file file.content file.mode) := by
  rw [fileAt]
  constructor
  · intro h
    split at h
    · rename_i hfile
      cases h
      exact ⟨rfl, hfile⟩
    · cases h
    · cases h
  · rintro ⟨rfl, hfile⟩
    rw [hfile]

theorem openFile_eq_ok_iff {path : RawText} {file : OpenFile} :
    tree.openFile path = .ok file ↔ tree.locate path = .ok file.place ∧
      tree.find? file.place = some (.file file.content file.mode) := by
  rw [openFile]
  cases tree.locate path with
  | error reason => simp [bind, Except.bind]
  | ok place =>
    refine fileAt_eq_ok_iff.trans (and_congr_left' ?_)
    simp

theorem content_eq_ok_iff {path : RawText} {bytes : ByteArray} :
    tree.content path = .ok bytes ↔
      ∃ file, tree.openFile path = .ok file ∧ file.mode.readable ∧ file.content = bytes := by
  rw [content]
  cases tree.openFile path with
  | error reason => simp [bind, Except.bind]
  | ok file => by_cases h : file.mode.readable <;> simp [bind, Except.bind, pure, Except.pure, h]

theorem write_eq_ok_iff {path : RawText} {text : String} {after : FileTree} :
    tree.write path text = .ok after ↔
      ∃ file, tree.openFile path = .ok file ∧ file.mode.writable ∧
        tree.replace file.place text.toUTF8 = after := by
  rw [write]
  cases tree.openFile path with
  | error reason => simp [bind, Except.bind]
  | ok file => by_cases h : file.mode.writable <;> simp [bind, Except.bind, pure, Except.pure, h]

/-- Both paths lead to one file. -/
def SameFile (tree : FileTree) (path other : RawText) : Prop :=
  ∃ file held, tree.openFile path = .ok file ∧ tree.openFile other = .ok held ∧
    file.place = held.place

theorem SameFile.symm {path other : RawText} (h : tree.SameFile path other) :
    tree.SameFile other path := by
  obtain ⟨file, held, hfile, hheld, hplace⟩ := h
  exact ⟨held, file, hheld, hfile, hplace.symm⟩

/-- A file is known by its place. -/
theorem SameFile.openFile_eq {path other : RawText} (h : tree.SameFile path other) :
    tree.openFile path = tree.openFile other := by
  obtain ⟨⟨place, content, mode⟩, ⟨place', content', mode'⟩, hfile, hheld, rfl⟩ := h
  have hplace := (openFile_eq_ok_iff.mp hfile).2
  rw [(openFile_eq_ok_iff.mp hheld).2] at hplace
  cases hplace
  rw [hfile, hheld]

theorem SameFile.content_eq {path other : RawText} (h : tree.SameFile path other) :
    tree.content path = tree.content other := by
  rw [content, content, h.openFile_eq]

theorem sameFile_mapContents {path other : RawText}
    (change : Place → ByteArray → ByteArray) :
    (tree.mapContents change).SameFile path other ↔ tree.SameFile path other := by
  simp only [SameFile, openFile_mapContents]
  cases tree.openFile path <;> cases tree.openFile other <;> simp [Except.map]

instance {path other : RawText} : Decidable (tree.SameFile path other) :=
  match hfile : tree.openFile path, hheld : tree.openFile other with
  | .ok file, .ok held =>
    decidable_of_iff (file.place = held.place)
      ⟨fun h => ⟨file, held, hfile, hheld, h⟩, fun ⟨_, _, hfile', hheld', h⟩ => by
        cases hfile.symm.trans hfile'
        cases hheld.symm.trans hheld'
        exact h⟩
  | .error _, _ => isFalse fun ⟨_, _, hfile', _⟩ => nomatch hfile.symm.trans hfile'
  | _, .error _ => isFalse fun ⟨_, _, _, hheld', _⟩ => nomatch hheld.symm.trans hheld'

/-! ## Trees with other contents -/

theorem mapContents_id (tree : FileTree) : (tree.mapContents fun _ content => content) = tree := by
  have hentry : ∀ e : Place × FileEntry,
      (e.1, e.2.mapContent fun content => content) = e := by
    rintro ⟨place, _ | _ | _ | _⟩ <;> rfl
  simp only [mapContents, hentry, List.map_id']

theorem mapContents_mapContents (tree : FileTree)
    (change next : Place → ByteArray → ByteArray) :
    (tree.mapContents change).mapContents next =
      tree.mapContents fun place content => next place (change place content) := by
  have hentry : ∀ e : Place × FileEntry,
      (e.1, (e.2.mapContent (change e.1)).mapContent (next e.1)) =
        (e.1, e.2.mapContent fun content => next e.1 (change e.1 content)) := by
    rintro ⟨place, _ | _ | _ | _⟩ <;> rfl
  simp only [mapContents, List.map_map, Function.comp_def, hentry]

/-- The trees differ in the contents of files only. -/
def Keeps (tree after : FileTree) : Prop :=
  ∃ change, after = tree.mapContents change

namespace Keeps

variable {after last : FileTree}

theorem refl (tree : FileTree) : tree.Keeps tree :=
  ⟨_, tree.mapContents_id.symm⟩

theorem trans (h : tree.Keeps after) (hnext : after.Keeps last) : tree.Keeps last := by
  obtain ⟨change, rfl⟩ := h
  obtain ⟨next, rfl⟩ := hnext
  exact ⟨_, tree.mapContents_mapContents change next⟩

theorem foldl {step : FileTree → RawText → FileTree}
    (hstep : ∀ tree path, Keeps tree (step tree path)) (tree : FileTree)
    (paths : List RawText) : tree.Keeps (paths.foldl step tree) := by
  induction paths generalizing tree with
  | nil => exact refl tree
  | cons path paths ih => exact (hstep tree path).trans (ih _)

theorem sameFile_iff (h : tree.Keeps after) {path other : RawText} :
    after.SameFile path other ↔ tree.SameFile path other := by
  obtain ⟨change, rfl⟩ := h
  exact sameFile_mapContents change

/-- A file is where it was, with what may be done with it. -/
theorem openFile_eq (h : tree.Keeps after) {path : RawText} {file : OpenFile}
    (hfile : tree.openFile path = .ok file) :
    ∃ content, after.openFile path = .ok { file with content } := by
  obtain ⟨change, rfl⟩ := h
  exact ⟨change file.place file.content, by rw [openFile_mapContents, hfile]; rfl⟩

theorem openFile_eq_of_find? (h : tree.Keeps after) {path : RawText}
    (hfind : ∀ file, tree.openFile path = .ok file →
      after.find? file.place = tree.find? file.place) :
    after.openFile path = tree.openFile path := by
  cases hfile : tree.openFile path with
  | error reason =>
    obtain ⟨change, rfl⟩ := h
    rw [openFile_mapContents, hfile]
    rfl
  | ok file =>
    obtain ⟨content, hafter⟩ := h.openFile_eq hfile
    have hplace := (openFile_eq_ok_iff.mp hafter).2
    rw [hfind file hfile, (openFile_eq_ok_iff.mp hfile).2] at hplace
    cases hplace
    exact hafter

end Keeps

/-! ## Writes -/

theorem keeps_of_write {path : RawText} {text : String} {after : FileTree}
    (hwrite : tree.write path text = .ok after) : tree.Keeps after := by
  obtain ⟨file, -, -, rfl⟩ := write_eq_ok_iff.mp hwrite
  exact ⟨_, rfl⟩

theorem run_bind {α β : Type} {action : StateM FileTree α} {after : FileTree} {a : α}
    (h : action.run tree = (a, after)) (next : α → StateM FileTree β) :
    (action >>= next).run tree = (next a).run after := by
  show (next (action.run tree).1).run (action.run tree).2 = _
  rw [h]

theorem run_write {path : RawText} {text : String} {after : FileTree}
    (hwrite : tree.write path text = .ok after) :
    (access.write path text).run tree = (.ok (), after) := by
  simp [access, hwrite]
  rfl

theorem run_write_refused {path : RawText} {text : String} {reason : AccessError}
    (hwrite : tree.write path text = .error reason) :
    (access.write path text).run tree = (.error reason, tree) := by
  simp [access, hwrite]
  rfl

/-- A file that may be read holds what was written to it. -/
theorem content_of_write {path : RawText} {text : String} {after : FileTree}
    (hwrite : tree.write path text = .ok after) {bytes : ByteArray}
    (hread : tree.content path = .ok bytes) : after.content path = .ok text.toUTF8 := by
  obtain ⟨file, hfile, -, rfl⟩ := write_eq_ok_iff.mp hwrite
  obtain ⟨held, hheld, hreadable, -⟩ := content_eq_ok_iff.mp hread
  cases hfile.symm.trans hheld
  have hopen : (tree.replace file.place text.toUTF8).openFile path =
      .ok { file with content := text.toUTF8 } := by
    rw [replace, openFile_mapContents, hfile]
    simp [Except.map]
  exact content_eq_ok_iff.mpr ⟨_, hopen, hreadable, rfl⟩

theorem find?_of_write {path : RawText} {text : String} {after : FileTree}
    (hwrite : tree.write path text = .ok after) {place : Place}
    (hother : ∀ file, tree.openFile path = .ok file → file.place ≠ place) :
    after.find? place = tree.find? place := by
  obtain ⟨file, hfile, -, rfl⟩ := write_eq_ok_iff.mp hwrite
  have hplace : place ≠ file.place := (hother file hfile).symm
  rw [replace, find?_mapContents]
  simp only [if_neg hplace]
  rcases tree.find? place with _ | _ | _ | _ | _ <;> rfl

theorem openFile_of_write {path other : RawText} {text : String} {after : FileTree}
    (hwrite : tree.write path text = .ok after) (hother : ¬ tree.SameFile path other) :
    after.openFile other = tree.openFile other := by
  refine (keeps_of_write hwrite).openFile_eq_of_find? fun held hheld => ?_
  refine find?_of_write hwrite fun file hfile hplace => ?_
  exact hother ⟨file, held, hfile, hheld, hplace⟩

end FileTree

end ResourceDecl
