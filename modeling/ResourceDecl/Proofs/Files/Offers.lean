import ResourceDecl.Proofs.Files.Contents
import ResourceDecl.Proofs.Files.Paths

/-!
# What a directory offers

A directory offers the files with the extension `res` below it, unless they stand in a directory
that is passed over (`FileTree.Offers`).

* `FileTree.listable_of_forall`: directories that can be listed.
* `FileTree.offers_singleton_iff`, `FileTree.offers_cons_iff`: what a directory offers, name by
  name.
-/

namespace ResourceDecl

/-- The entry is no directory that may not be listed. -/
def FileEntry.isListable : FileEntry → Bool
  | directory mode => mode.readable
  | _ => true

namespace FileTree

/-! ## Entries below a directory -/

/-- The names of the tree are names of a directory, and no two entries have one place. -/
structure WellNamed (tree : FileTree) : Prop where
  isFileName : ∀ e ∈ tree.entries, ∀ name ∈ e.1, IsFileName name
  nodup : (tree.entries.map Prod.fst).Nodup

instance (tree : FileTree) : Decidable tree.WellNamed :=
  decidable_of_iff
    ((∀ e ∈ tree.entries, ∀ name ∈ e.1, IsFileName name) ∧ (tree.entries.map Prod.fst).Nodup)
    ⟨fun h => ⟨h.1, h.2⟩, fun h => ⟨h.1, h.2⟩⟩

/-- The names in the directory that a path leads to. -/
def held (tree : FileTree) (directory : RawText) : List RawText :=
  match tree.directory? directory with
  | some (place, _) => tree.namesIn place
  | none => []

/-- The names lead from the directory to an entry, through links to directories, too. -/
inductive EntryBelow (tree : FileTree) : RawText → List RawText → Prop
  | here {directory name : RawText} (hheld : name ∈ tree.held directory) :
    EntryBelow tree directory [name]
  | deeper {directory name : RawText} {names : List RawText} (hheld : name ∈ tree.held directory)
    (hbelow : EntryBelow tree (joinPath directory name) names) :
    EntryBelow tree directory (name :: names)

/-- The directory and the directories below it can be listed. -/
def Listable (tree : FileTree) (directory : RawText) : Prop :=
  ∀ names, names = [] ∨ tree.EntryBelow directory names →
    ∀ found ∈ tree.directory? (pathBelow directory names), found.2.readable

/-- The names lead from the directory to an entry that is no directory and has the extension `res`,
and no directory between them is passed over. -/
structure Offers (tree : FileTree) (passedOver : RawText → Prop) (directory : RawText)
    (names : List RawText) : Prop where
  entry : tree.EntryBelow directory names
  not_directory : tree.directory? (pathBelow directory names) = none
  extension : ∃ name ∈ names.getLast?, HasExtension name "res"
  open_between : ∀ name ∈ names.dropLast, ¬ passedOver name

variable {tree : FileTree} {passedOver : RawText → Prop} {directory path name : RawText}
  {names rest : List RawText}

theorem held_of_directory?_eq_none (h : tree.directory? directory = none) :
    tree.held directory = [] := by
  rw [held, h]

/-- A name in a directory is one of an entry of the tree. -/
theorem exists_of_mem_held (h : name ∈ tree.held directory) : ∃ e ∈ tree.entries, name ∈ e.1 := by
  rw [held] at h
  split at h
  · obtain ⟨e, he, hname⟩ := List.mem_filterMap.mp h
    split at hname
    · exact ⟨e, he, List.mem_of_getLast? hname⟩
    · cases hname
  · cases h

theorem isFileName_of_mem_held (hnamed : tree.WellNamed) (h : name ∈ tree.held directory) :
    IsFileName name := by
  obtain ⟨e, he, hname⟩ := exists_of_mem_held h
  exact hnamed.isFileName e he name hname

theorem nodup_held (hnamed : tree.WellNamed) (directory : RawText) :
    (tree.held directory).Nodup := by
  rw [held]
  split
  · rename_i place mode hplace
    rw [namesIn]
    have hplaces := List.pairwise_map.mp hnamed.nodup
    refine List.Pairwise.filterMap _ (fun e other hne a ha b hb hsame => hne ?_) hplaces
    -- entries of one directory with one name have one place
    subst hsame
    rw [Option.ite_none_right_eq_some] at ha hb
    obtain ⟨hfirst, ha⟩ := ha
    obtain ⟨hsecond, hb⟩ := hb
    rw [← List.dropLast_append_getLast? a ha, ← List.dropLast_append_getLast? a hb, hfirst,
      hsecond]
  · exact .nil

theorem EntryBelow.exists_of_mem (h : tree.EntryBelow directory names) :
    ∀ name ∈ names, ∃ e ∈ tree.entries, name ∈ e.1 := by
  induction h with
  | here hheld => exact List.forall_mem_singleton.mpr (exists_of_mem_held hheld)
  | deeper hheld _ ih => exact List.forall_mem_cons.mpr ⟨exists_of_mem_held hheld, ih⟩

theorem EntryBelow.isFileName (hnamed : tree.WellNamed) (h : tree.EntryBelow directory names) :
    ∀ name ∈ names, IsFileName name := by
  intro name hm
  obtain ⟨e, he, hname⟩ := h.exists_of_mem name hm
  exact hnamed.isFileName e he name hname

theorem EntryBelow.directory?_isSome (h : tree.EntryBelow directory names) :
    (tree.directory? directory).isSome := by
  rw [Option.isSome_iff_ne_none]
  intro hnone
  cases h with
  | here hheld | deeper hheld =>
    rw [held_of_directory?_eq_none hnone] at hheld
    cases hheld

theorem EntryBelow.ne_nil (h : tree.EntryBelow directory names) : names ≠ [] := by
  cases h <;> exact List.cons_ne_nil _ _

theorem names_eq_held (h : tree.Listable directory) :
    tree.names directory = tree.held directory := by
  have hreadable := h [] (.inl rfl)
  rw [names, held]
  rw [pathBelow_nil] at hreadable
  cases hdirectory : tree.directory? directory with
  | none => rfl
  | some found =>
    obtain ⟨place, mode⟩ := found
    have hmode : mode.readable := hreadable _ hdirectory
    simp only [hmode, if_true]

theorem Listable.joinPath (h : tree.Listable directory) (hheld : name ∈ tree.held directory) :
    tree.Listable (joinPath directory name) := by
  intro names hnames
  refine h (name :: names) (.inr ?_)
  rcases hnames with rfl | hnames
  · exact .here hheld
  · exact .deeper hheld hnames

theorem directoryMode?_eq_some {place : Place} {mode : FileMode}
    (h : tree.directoryMode? place = some mode) :
    mode = {} ∨ ∃ e ∈ tree.entries, e.2 = .directory mode := by
  rw [directoryMode?, find?] at h
  split at h
  · rename_i hfind
    cases h
    split at hfind
    · cases hfind
      exact .inl rfl
    · obtain ⟨e, he, hentry⟩ := Option.map_eq_some_iff.mp hfind
      exact .inr ⟨e, List.mem_of_find?_eq_some he, hentry⟩
  · cases h

/-- In a tree in which every directory can be listed, so can those below a directory. -/
theorem listable_of_forall (directory : RawText) (h : ∀ e ∈ tree.entries, e.2.isListable) :
    tree.Listable directory := by
  rintro names - ⟨place, mode⟩ hfound
  rw [Option.mem_def, directory?] at hfound
  split at hfound
  · obtain ⟨mode', hmode, hpair⟩ := Option.map_eq_some_iff.mp hfound
    cases hpair
    rcases directoryMode?_eq_some hmode with rfl | ⟨e, he, hentry⟩
    · rfl
    · have hreadable := h e he
      rw [hentry] at hreadable
      exact hreadable
  · cases hfound

/-! ## What a directory offers -/

theorem offers_singleton_iff : tree.Offers passedOver directory [name] ↔
    name ∈ tree.held directory ∧ tree.directory? (joinPath directory name) = none ∧ isResourceName name := by
  rw [isResourceName_iff]
  constructor
  · rintro ⟨hentry, hnone, ⟨_, ⟨⟩, hextension⟩, -⟩
    refine ⟨?_, hnone, hextension⟩
    cases hentry with
    | here hheld | deeper hheld => exact hheld
  · rintro ⟨hheld, hnone, hextension⟩
    exact ⟨.here hheld, hnone, ⟨name, rfl, hextension⟩, by simp⟩

theorem offers_cons_iff (hrest : rest ≠ []) : tree.Offers passedOver directory (name :: rest) ↔
    name ∈ tree.held directory ∧ ¬ passedOver name ∧
      tree.Offers passedOver (joinPath directory name) rest := by
  have hlast : (name :: rest).getLast? = rest.getLast? := by
    rw [List.getLast?_cons, List.getLast?_eq_some_getLast hrest]
    rfl
  have hfront : (name :: rest).dropLast = name :: rest.dropLast :=
    List.dropLast_cons_of_ne_nil hrest
  constructor
  · rintro ⟨hentry, hnone, hextension, hopen⟩
    rw [hlast] at hextension
    rw [hfront] at hopen
    obtain ⟨hname, hopen⟩ := List.forall_mem_cons.mp hopen
    cases hentry with
    | here => exact absurd rfl hrest
    | deeper hheld hbelow => exact ⟨hheld, hname, hbelow, hnone, hextension, hopen⟩
  · rintro ⟨hheld, hname, hbelow, hnone, hextension, hopen⟩
    refine ⟨.deeper hheld hbelow, hnone, ?_, ?_⟩
    · rw [hlast]
      exact hextension
    · rw [hfront]
      exact List.forall_mem_cons.mpr ⟨hname, hopen⟩

/-- Where all names are texts, directories are passed over if they are hidden. -/
theorem offers_isHidden_iff (htexts : ∀ e ∈ tree.entries, ∀ name ∈ e.1, name.IsText) :
    tree.Offers IsHidden directory names ↔ tree.Offers IsPassedOver directory names := by
  have hsame (hentry : tree.EntryBelow directory names) {name : RawText}
      (hm : name ∈ names.dropLast) : IsPassedOver name ↔ IsHidden name := by
    obtain ⟨e, he, hname⟩ := hentry.exists_of_mem name ((List.dropLast_sublist names).mem hm)
    exact and_iff_right (htexts e he name hname)
  constructor
  · rintro ⟨hentry, hnone, hextension, hopen⟩
    exact ⟨hentry, hnone, hextension, fun name hm => mt (hsame hentry hm).mp (hopen name hm)⟩
  · rintro ⟨hentry, hnone, hextension, hopen⟩
    exact ⟨hentry, hnone, hextension, fun name hm => mt (hsame hentry hm).mpr (hopen name hm)⟩

end FileTree

end ResourceDecl
