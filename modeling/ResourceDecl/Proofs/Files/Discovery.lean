import Mathlib.Data.List.Sort
import ResourceDecl.Proofs.Files.Offers
import ResourceDecl.Proofs.Files.Sources

/-!
# Which files are found

The search visits directories in whatever order they list their names; sorting makes that order
irrelevant.

* `FileTree.run_filesBelow`: the search as a function of the tree, `FileTree.found`.
* `FileTree.mem_found_iff`, `FileTree.pairwise_found`: it finds what the directory offers, each file
  once.
* `FileTree.run_sourcePaths_of_perm`, `FileTree.mem_sources_iff`, `FileTree.pairwise_sources`: the
  files that a path stands for, and their order.
-/

namespace ResourceDecl

variable {m : Type → Type} [Monad m]

/-- The same files where directories list their names in another order. -/
def FileAccess.reordered (files : FileAccess m) (order : RawText → List RawText → List RawText) :
    FileAccess m :=
  { files with names := fun path => do return order path (← files.names path) }

namespace FileTree

variable {tree : FileTree} {directory path name : RawText} {names rest : List RawText}

/-! ## The search -/

/-- The files that a name in a directory stands for; `below` gives those below a directory. -/
def foundAt (tree : FileTree) (below : List RawText → RawText → List FoundFile)
    (names : List RawText) (directory name : RawText) : List FoundFile :=
  let path := joinPath directory name
  if (tree.directory? path).isSome then
    if isPassedOver name then [] else below (names ++ [name]) path
  else if isResourceName name then [⟨names ++ [name], path⟩]
  else []

/-- The files that the search finds below a directory if `look` gives the names in each. -/
def found (tree : FileTree) (look : RawText → List RawText) :
    Nat → List RawText → RawText → List FoundFile
  | 0, _, _ => []
  | depth + 1, names, directory =>
    (look directory).flatMap (tree.foundAt (tree.found look depth) names directory)

theorem run_mapM {α β : Type} {action : α → StateM FileTree β} {f : α → β}
    (h : ∀ a, (action a).run tree = (f a, tree)) (items : List α) :
    (items.mapM action).run tree = (items.map f, tree) := by
  induction items with
  | nil => rfl
  | cons a items ih =>
    rw [List.mapM_cons, run_bind (h a), run_bind ih]
    rfl

section

variable (order : RawText → List RawText → List RawText) (tree : FileTree)

theorem run_names_reordered (path : RawText) :
    ((access.reordered order).names path).run tree = (order path (tree.names path), tree) :=
  rfl

theorem run_isDirectory_reordered (path : RawText) :
    ((access.reordered order).isDirectory path).run tree =
      ((tree.directory? path).isSome, tree) :=
  rfl

theorem run_isFile_reordered (path : RawText) :
    ((access.reordered order).isFile path).run tree = (tree.isFile path, tree) :=
  rfl

/-- The search leaves the tree as it is. -/
theorem run_filesBelow (depth : Nat) (names : List RawText) (directory : RawText) :
    (filesBelow (access.reordered order) depth names directory).run tree =
      (tree.found (fun path => order path (tree.names path)) depth names directory, tree) := by
  induction depth generalizing names directory with
  | zero => rfl
  | succ depth ih =>
    rw [filesBelow, found, List.flatMap_def, run_bind (run_names_reordered order tree directory),
      run_bind (run_mapM (fun name => ?_) _)]
    · rfl
    · rw [run_bind (run_isDirectory_reordered order tree _)]
      rw [foundAt]
      cases (tree.directory? (joinPath directory name)).isSome with
      | true =>
        cases isPassedOver name with
        | true => rfl
        | false => exact ih _ _
      | false => rfl

end

/-! ## What the search finds -/

theorem directory?_eq_none_of_long (h : maxPathBytes < directory.bytes.length) :
    tree.directory? directory = none := by
  have hlocate : ∃ reason, tree.locate directory = .error reason := by
    simp only [locate, if_pos h]
    split
    · exact ⟨_, rfl⟩
    · split <;> exact ⟨_, rfl⟩
  obtain ⟨reason, hlocate⟩ := hlocate
  rw [directory?, hlocate]

theorem mem_foundAt_iff {below : List RawText → RawText → List FoundFile} {f : FoundFile} :
    f ∈ tree.foundAt below names directory name ↔
      (tree.directory? (joinPath directory name)).isSome ∧ ¬ IsPassedOver name ∧
          f ∈ below (names ++ [name]) (joinPath directory name) ∨
        tree.directory? (joinPath directory name) = none ∧ isResourceName name ∧
          f = ⟨names ++ [name], joinPath directory name⟩ := by
  rw [foundAt]
  cases tree.directory? (joinPath directory name) with
  | none => cases isResourceName name <;> simp
  | some =>
    rw [← isPassedOver_iff]
    cases isPassedOver name <;> simp

section

variable {look : RawText → List RawText} {depth : Nat} {f : FoundFile}

theorem prefix_of_mem_foundAt {below : List RawText → RawText → List FoundFile}
    (hbelow : ∀ {names directory f}, f ∈ below names directory → names <+: f.names)
    (h : f ∈ tree.foundAt below names directory name) : names ++ [name] <+: f.names := by
  rcases mem_foundAt_iff.mp h with ⟨-, -, h⟩ | ⟨-, -, rfl⟩
  · exact hbelow h
  · exact List.prefix_rfl

theorem prefix_of_mem_found (h : f ∈ tree.found look depth names directory) :
    names <+: f.names := by
  induction depth generalizing names directory f with
  | zero => cases h
  | succ depth ih =>
    obtain ⟨name, -, h⟩ := List.mem_flatMap.mp h
    exact (List.prefix_append names [name]).trans (prefix_of_mem_foundAt ih h)

variable (hnamed : tree.WellNamed) (hlook : ∀ path, (look path).Perm (tree.names path))

theorem mem_look_iff (hlook : ∀ path, (look path).Perm (tree.names path))
    (hlist : tree.Listable directory) :
    name ∈ look directory ↔ name ∈ tree.held directory := by
  rw [(hlook directory).mem_iff, names_eq_held hlist]

include hnamed hlook

/-- The depth is enough for all directories, since a path grows with each name and long paths lead
nowhere. -/
theorem mem_found_iff (hlist : tree.Listable directory)
    (hdepth : maxPathBytes < directory.bytes.length + depth) :
    f ∈ tree.found look depth names directory ↔
      ∃ rest, tree.Offers IsPassedOver directory rest ∧
        f = ⟨names ++ rest, pathBelow directory rest⟩ := by
  induction depth generalizing names directory with
  | zero =>
    have hnone : tree.directory? directory = none := directory?_eq_none_of_long hdepth
    refine iff_of_false List.not_mem_nil ?_
    rintro ⟨rest, hoffers, -⟩
    have hsome := hoffers.entry.directory?_isSome
    rw [hnone] at hsome
    cases hsome
  | succ depth ih =>
    have hbelow {name : RawText} (hheld : name ∈ tree.held directory) :
        f ∈ tree.found look depth (names ++ [name]) (joinPath directory name) ↔
          ∃ rest, tree.Offers IsPassedOver (joinPath directory name) rest ∧
            f = ⟨names ++ [name] ++ rest, pathBelow (joinPath directory name) rest⟩ := by
      have hgrows : directory.bytes.length < (joinPath directory name).bytes.length :=
        length_lt_joinPath (isFileName_of_mem_held hnamed hheld)
      exact ih (hlist.joinPath hheld) (by omega)
    rw [found, List.mem_flatMap]
    constructor
    · rintro ⟨name, hname, hf⟩
      have hheld := (mem_look_iff hlook hlist).mp hname
      rcases mem_foundAt_iff.mp hf with ⟨-, hopen, hf⟩ | ⟨hnone, hresource, rfl⟩
      · obtain ⟨rest, hoffers, rfl⟩ := (hbelow hheld).mp hf
        have hrest := hoffers.entry.ne_nil
        exact ⟨name :: rest, (offers_cons_iff hrest).mpr ⟨hheld, hopen, hoffers⟩, by simp⟩
      · exact ⟨[name], offers_singleton_iff.mpr ⟨hheld, hnone, hresource⟩, rfl⟩
    · rintro ⟨_ | ⟨name, rest⟩, hoffers, rfl⟩
      · exact absurd rfl hoffers.entry.ne_nil
      · by_cases hrest : rest = []
        · subst hrest
          obtain ⟨hheld, hnone, hresource⟩ := offers_singleton_iff.mp hoffers
          have hname := (mem_look_iff hlook hlist).mpr hheld
          exact ⟨name, hname, mem_foundAt_iff.mpr (.inr ⟨hnone, hresource, rfl⟩)⟩
        · obtain ⟨hheld, hopen, hoffers⟩ := (offers_cons_iff hrest).mp hoffers
          have hname := (mem_look_iff hlook hlist).mpr hheld
          have hsome := hoffers.entry.directory?_isSome
          have hf := (hbelow hheld).mpr ⟨rest, hoffers, by simp⟩
          exact ⟨name, hname, mem_foundAt_iff.mpr (.inl ⟨hsome, hopen, hf⟩)⟩

/-- Different files have different names. -/
theorem pairwise_found (hlist : tree.Listable directory) :
    (tree.found look depth names directory).Pairwise fun f g => f.names ≠ g.names := by
  induction depth generalizing names directory with
  | zero => exact .nil
  | succ depth ih =>
    rw [found, List.pairwise_flatMap]
    constructor
    · intro name hname
      have hheld := (mem_look_iff hlook hlist).mp hname
      rw [foundAt]
      split
      · split
        · exact .nil
        · exact ih (hlist.joinPath hheld)
      · split
        · exact List.pairwise_singleton _ _
        · exact .nil
    · have hnodup : (look directory).Nodup := by
        rw [(hlook directory).nodup_iff, names_eq_held hlist]
        exact nodup_held hnamed directory
      refine hnodup.imp fun {name other} hne f hf g hg hsame => hne ?_
      -- what is found at a name has it behind the names of the directory
      have hfirst := prefix_of_mem_foundAt prefix_of_mem_found hf
      have hsecond := prefix_of_mem_foundAt prefix_of_mem_found hg
      rw [hsame] at hfirst
      have hlast := List.prefix_of_prefix_length_le hfirst hsecond (by simp)
      simpa using hlast

end

/-! ## The files in order -/

/-- Files with different names are sorted strictly. -/
theorem pairwise_lt_sortBy {files : List FoundFile}
    (hfiles : files.Pairwise fun f g => f.names ≠ g.names) :
    (sortBy (fun f g => namesLE f.names g.names) files).Pairwise fun f g => f.names < g.names := by
  have hsorted : (sortBy (fun f g => namesLE f.names g.names) files).Pairwise
      fun f g => namesLE f.names g.names :=
    pairwise_sortBy (fun f g k => namesLE_trans f.names g.names k.names)
      (fun f g => namesLE_total f.names g.names) files
  have hdifferent := ((sortBy_perm (fun f g => namesLE f.names g.names) files).pairwise_iff
    fun hne => Ne.symm hne).mpr hfiles
  refine hsorted.imp₂ (fun f g hle hne => ?_) hdifferent
  exact lt_of_le_of_ne (not_lt.mp (namesLE_iff.mp hle)) hne

/-- The files found below the directory, in the order of their names. -/
def sortedFiles (tree : FileTree) (look : RawText → List RawText) (path : RawText) :
    List FoundFile :=
  sortBy (fun f g => namesLE f.names g.names) (tree.found look maxDepth [] path)

theorem run_sourcePaths_reordered (order : RawText → List RawText → List RawText) (tree : FileTree)
    (path : RawText) :
    (sourcePaths (access.reordered order) path).run tree =
      (if tree.isFile path then [path]
        else (tree.sortedFiles (fun path => order path (tree.names path)) path).map
          FoundFile.path, tree) := by
  rw [sourcePaths, run_bind (run_isFile_reordered order tree path)]
  cases tree.isFile path with
  | true => rfl
  | false => exact run_bind (run_filesBelow order tree maxDepth [] path) _

theorem sources_eq (tree : FileTree) (path : RawText) :
    tree.sources path =
      if tree.isFile path then [path]
      else (tree.sortedFiles tree.names path).map FoundFile.path :=
  congrArg Prod.fst (run_sourcePaths_reordered (fun _ names => names) tree path)

section

variable {look : RawText → List RawText} (hnamed : tree.WellNamed) (hlist : tree.Listable path)
  (hlook : ∀ path, (look path).Perm (tree.names path))

include hnamed hlist hlook

theorem mem_sortedFiles_iff {f : FoundFile} : f ∈ tree.sortedFiles look path ↔
    ∃ names, tree.Offers IsPassedOver path names ∧ f = ⟨names, pathBelow path names⟩ := by
  have hdepth : maxPathBytes < path.bytes.length + maxDepth := by
    rw [maxPathBytes, maxDepth]
    omega
  rw [sortedFiles, (sortBy_perm _ _).mem_iff]
  exact mem_found_iff hnamed hlook hlist hdepth

theorem pairwise_sortedFiles :
    (tree.sortedFiles look path).Pairwise fun f g => f.names < g.names :=
  pairwise_lt_sortBy (pairwise_found hnamed hlook hlist)

/-- The order in which names are listed does not matter. -/
theorem sortedFiles_eq : tree.sortedFiles look path = tree.sortedFiles tree.names path := by
  have hirrefl : Std.Irrefl fun f g : FoundFile => f.names < g.names :=
    ⟨fun f => lt_irrefl f.names⟩
  have hantisymm : Std.Antisymm fun f g : FoundFile => f.names < g.names :=
    ⟨fun f g h h' => absurd h (lt_asymm h')⟩
  have hsame (directory : RawText) : (tree.names directory).Perm (tree.names directory) := .rfl
  refine (pairwise_sortedFiles hnamed hlist hlook).eq_of_mem_iff
    (pairwise_sortedFiles hnamed hlist hsame) fun f => ?_
  rw [mem_sortedFiles_iff hnamed hlist hlook, mem_sortedFiles_iff hnamed hlist hsame]

end

theorem mem_sources_iff (hnamed : tree.WellNamed) (hlist : tree.Listable path)
    (hfile : tree.isFile path = false) {file : RawText} :
    file ∈ tree.sources path ↔
      ∃ names, tree.Offers IsPassedOver path names ∧ file = pathBelow path names := by
  rw [sources_eq, if_neg (by simp [hfile]), List.mem_map]
  constructor
  · rintro ⟨f, hf, rfl⟩
    obtain ⟨names, hoffers, rfl⟩ := (mem_sortedFiles_iff hnamed hlist fun _ => .rfl).mp hf
    exact ⟨names, hoffers, rfl⟩
  · rintro ⟨names, hoffers, rfl⟩
    exact ⟨_, (mem_sortedFiles_iff hnamed hlist fun _ => .rfl).mpr ⟨names, hoffers, rfl⟩, rfl⟩

theorem ne_empty_of_offers (h : tree.Offers IsPassedOver path names) : path ≠ "" := by
  rintro rfl
  have hsome := h.entry.directory?_isSome
  have hnone : tree.directory? "" = none := rfl
  rw [hnone] at hsome
  cases hsome

/-- The components of a file that is found are those of the directory and the names below it. -/
theorem pairwise_sources (hnamed : tree.WellNamed) (hlist : tree.Listable path)
    (hfile : tree.isFile path = false) :
    (tree.sources path).Pairwise fun file other => components file < components other := by
  rw [sources_eq, if_neg (by simp [hfile]), List.pairwise_map]
  have hsame (directory : RawText) : (tree.names directory).Perm (tree.names directory) := .rfl
  refine (pairwise_sortedFiles hnamed hlist hsame).imp_of_mem fun {f g} hf hg hlt => ?_
  obtain ⟨names, hoffers, rfl⟩ := (mem_sortedFiles_iff hnamed hlist hsame).mp hf
  obtain ⟨others, hother, rfl⟩ := (mem_sortedFiles_iff hnamed hlist hsame).mp hg
  have hpath := ne_empty_of_offers hoffers
  rw [components_pathBelow hpath (hoffers.entry.isFileName hnamed),
    components_pathBelow hpath (hother.entry.isFileName hnamed)]
  exact List.append_left_lt hlt

/-- The files that are found do not depend on the order in which names are listed. -/
theorem run_sourcePaths_of_perm (hnamed : tree.WellNamed) (hlist : tree.Listable path)
    {order : RawText → List RawText → List RawText}
    (horder : ∀ directory names, (order directory names).Perm names) :
    (sourcePaths (access.reordered order) path).run tree = (tree.sources path, tree) := by
  rw [run_sourcePaths_reordered, sources_eq,
    sortedFiles_eq hnamed hlist fun directory => horder directory _]

theorem sources_eq_nil_iff (hnamed : tree.WellNamed) (hlist : tree.Listable path) :
    tree.sources path = [] ↔
      tree.isFile path = false ∧ ¬ ∃ names, tree.Offers IsPassedOver path names := by
  cases hfile : tree.isFile path with
  | true => simp [sources_eq, hfile]
  | false =>
    rw [List.eq_nil_iff_forall_not_mem]
    simp only [mem_sources_iff hnamed hlist hfile, true_and]
    constructor
    · rintro hnone ⟨names, hoffers⟩
      exact hnone _ ⟨names, hoffers, rfl⟩
    · rintro hnone file ⟨names, hoffers, -⟩
      exact hnone ⟨names, hoffers⟩

end FileTree

end ResourceDecl
