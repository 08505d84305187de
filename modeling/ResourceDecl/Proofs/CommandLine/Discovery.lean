import ResourceDecl.Proofs.CommandLine.Runs
import ResourceDecl.Proofs.Files.Discovery

/-!
# The files that a run takes up

* `FileTree.run_reformat_reordered`: a run does not depend on the order in which directories list
  their names.
* `FileTree.run_reformat_eq_nothingFound_iff`: it says that there are no files exactly if none were
  found.
* `FileTree.sources_exact`: the files that a path stands for.
-/

namespace ResourceDecl

open RawText

namespace FileTree

variable {tree : FileTree} {path : RawText}

/-! ## Runs that find nothing -/

theorem reformatFiles_reordered (order : RawText → List RawText → List RawText)
    (options : ReformatOptions) (paths : List RawText) :
    reformatFiles (access.reordered order) options paths = reformatFiles access options paths := by
  induction paths with
  | nil => rfl
  | cons path paths ih =>
    rw [reformatFiles, reformatFiles, ih]
    rfl

/-- What the command says of files that it has found is nothing or starts on a line of its own. -/
theorem head?_of_failure {options : ReformatOptions} {reports : List FileReport} {message : String}
    (h : (reformatOutcome options reports).failure = some (.general message)) :
    message = "" ∨ message.toList.head? = some '\n' := by
  cases hdry : options.isDryRun with
  | false =>
    simp only [reformatOutcome, hdry, writeSummary, Bool.false_eq_true, if_false,
      Option.ite_none_right_eq_some, Option.some.injEq, Failure.general.injEq] at h
    exact .inl h.2.symm
  | true =>
    simp only [reformatOutcome, hdry, dryRunSummary, if_true] at h
    split at h
    · cases h
      exact .inr (by simp)
    · simp only [Option.ite_none_right_eq_some, Option.some.injEq, Failure.general.injEq] at h
      exact .inl h.2.symm

theorem reformatOutcome_ne_nothingFound (options : ReformatOptions) (reports : List FileReport)
    (path : RawText) : reformatOutcome options reports ≠
      .failed (.general (SourceError.nothingFound path).message) := by
  have hfirst : (SourceError.nothingFound path).message.toList.head? = some 'n' := by
    show ("no .res files found under '" ++ path.display ++ "'").toList.head? = some 'n'
    simp
  intro h
  have hfailure : (reformatOutcome options reports).failure =
      some (.general (SourceError.nothingFound path).message) := by
    rw [h]
    rfl
  rcases head?_of_failure hfailure with hempty | hhead
  · simp [hempty] at hfirst
  · simp [hhead] at hfirst

/-- A run does not depend on the order in which names are listed. -/
theorem run_reformat_reordered (hnamed : tree.WellNamed) (hlist : tree.Listable path)
    {order : RawText → List RawText → List RawText}
    (horder : ∀ directory names, (order directory names).Perm names) (options : ReformatOptions) :
    (reformat (access.reordered order) options path).run tree =
      tree.run (.reformat path options) := by
  rw [run, Request.run, reformat, reformat,
    run_bind (run_sourcePaths_of_perm hnamed hlist horder), run_bind (run_sourcePaths tree path)]
  simp only [reformatFiles_reordered]

/-- A run says that there are no files exactly if none were found. -/
theorem run_reformat_eq_nothingFound_iff (options : ReformatOptions) (tree : FileTree)
    (path : RawText) :
    (tree.run (.reformat path options)).1 =
      .failed (.general (SourceError.nothingFound path).message) ↔ tree.sources path = [] := by
  rw [run_reformat_stages]
  split
  · rename_i hnone
    exact iff_of_true rfl hnone
  · rename_i hfound
    exact iff_of_false (reformatOutcome_ne_nothingFound _ _ _) hfound

/-- The files that a path stands for, in whatever order directories list their names. Hidden
directories are passed over if their names are texts. -/
theorem sources_exact (tree : FileTree) (path : RawText) (hnamed : tree.WellNamed)
    (hlist : tree.Listable path) (order : RawText → List RawText → List RawText)
    (horder : ∀ directory names, (order directory names).Perm names) :
    let files := access.reordered order
    (sourcePaths files path).run tree = (tree.sources path, tree) ∧
      (tree.isFile path → tree.sources path = [path]) ∧
      (tree.isFile path = false →
        (∀ file, file ∈ tree.sources path ↔
          ∃ names, tree.Offers IsPassedOver path names ∧ file = pathBelow path names) ∧
        (tree.sources path).Pairwise fun file other => components file < components other) ∧
      (∀ options, ((reformat files options path).run tree).1 =
          .failed (.general (SourceError.nothingFound path).message) ↔
        tree.isFile path = false ∧ ¬ ∃ names, tree.Offers IsPassedOver path names) ∧
      ((∀ e ∈ tree.entries, ∀ name ∈ e.1, name.IsText) →
        ∀ names, tree.Offers IsPassedOver path names ↔ tree.Offers IsHidden path names) := by
  intro files
  refine ⟨run_sourcePaths_of_perm hnamed hlist horder, fun hfile => ?_, fun hfile => ?_,
    fun options => ?_, fun htexts names => (offers_isHidden_iff htexts).symm⟩
  · rw [sources_eq, if_pos hfile]
  · exact ⟨fun _ => mem_sources_iff hnamed hlist hfile, pairwise_sources hnamed hlist hfile⟩
  · rw [run_reformat_reordered hnamed hlist horder, run_reformat_eq_nothingFound_iff,
      sources_eq_nil_iff hnamed hlist]

theorem sources_exact_reverse :
    let tree : FileTree := {
      entries := [
        (["home"], .directory),
        (["home", "out"], .directory),
        (["home", "out", "b.res"], .file "NEAR\n".toUTF8),
        (["home", "out", "a.res"], .file "NEAR\n".toUTF8),
        (["home", "out", "a"], .directory),
        (["home", "out", "a", "z.res"], .link "../../notes.txt"),
        (["home", "out", "a", "target"], .directory),
        (["home", "out", "a", "target", "c.res"], .file "NEAR\n".toUTF8),
        (["home", "out", ".res"], .file "NEAR\n".toUTF8),
        (["home", "out", ".hidden.res"], .file "NEAR\n".toUTF8),
        (["home", "out", ".hidden"], .directory),
        (["home", "out", ".hidden", "d.res"], .file "NEAR\n".toUTF8),
        (["home", "out", "dead.res"], .link "/nowhere"),
        (["home", "out", "dir.res"], .link "/far"),
        (["far"], .directory),
        (["far", "e.res"], .file "NEAR\n".toUTF8),
        (["home", "notes.txt"], .file "NEAR\n".toUTF8)]
      workingDirectory := ["home"] }
    let files := access.reordered fun _ => List.reverse
    let notes : RawText := "/home/notes.txt"
    let found : List RawText := ["out/.hidden.res", "out/a/z.res", "out/a.res", "out/b.res",
      "out/dead.res", "out/dir.res/e.res"]
    tree.WellNamed ∧ tree.Listable "out" ∧ (∀ names : List RawText, names.reverse.Perm names) ∧
      tree.isFile "out" = false ∧
      (sourcePaths files "out").run tree = (found, tree) ∧
      (∀ file ∈ found, ∃ names, tree.Offers IsHidden "out" names ∧ file = pathBelow "out" names) ∧
      (sourcePaths files notes).run tree = ([notes], tree) := by
  intro tree files notes found
  have hnamed : tree.WellNamed := by decide +kernel
  have hlist (directory : RawText) : tree.Listable directory :=
    listable_of_forall directory (by decide +kernel)
  have hsources : tree.sources "out" = found := by decide +kernel
  have hdirectory : tree.isFile "out" = false := by decide +kernel
  obtain ⟨hrun, -, hoffers, -, htexts⟩ := sources_exact tree "out" hnamed (hlist _)
    (fun _ => List.reverse) (fun _ => List.reverse_perm)
  obtain ⟨hfile, hone, -⟩ := sources_exact tree notes hnamed (hlist _)
    (fun _ => List.reverse) (fun _ => List.reverse_perm)
  rw [hsources] at hrun hoffers
  rw [hone (by decide +kernel)] at hfile
  refine ⟨hnamed, hlist "out", List.reverse_perm, hdirectory, hrun, fun file hm => ?_, hfile⟩
  obtain ⟨names, hnames, rfl⟩ := ((hoffers hdirectory).1 file).mp hm
  exact ⟨names, (htexts (by decide +kernel) names).mp hnames, rfl⟩

/-- A hidden directory whose name is no text is not passed over. A directory with a long path is, in
silence, also if it can be listed by a shorter one. -/
theorem sources_of_other_directories :
    (let hidden : RawText := ⟨[0x2e, 0x63, 0x61, 0x66, 0xe9]⟩
      let tree : FileTree := {
        entries := [([hidden], .directory), ([hidden, "a.res"], .file "NEAR\n".toUTF8)] }
      tree.WellNamed ∧ tree.Listable "." ∧ IsHidden hidden ∧ ¬ hidden.IsText ∧
        tree.isFile "." = false ∧ tree.sources "." = [pathBelow "." [hidden, "a.res"]] ∧
        ¬ ∃ names, tree.Offers IsHidden "." names) ∧
      let long : RawText := ⟨List.replicate 200 0x64⟩
      let path : RawText := ⟨dot :: (List.replicate 1999 [slash, dot]).flatten⟩
      let tree : FileTree := {
        entries := [([long], .directory), ([long, "a.res"], .file "NEAR\n".toUTF8)] }
      tree.WellNamed ∧ tree.Listable path ∧ tree.directory? path = tree.directory? "." ∧
        tree.isFile path = false ∧ tree.sources "." = [pathBelow "." [long, "a.res"]] ∧
        tree.sources path = [] := by
  constructor
  · intro hidden tree
    have hnamed : tree.WellNamed := by decide +kernel
    have hlist : tree.Listable "." := listable_of_forall "." (by decide +kernel)
    have hhidden : IsHidden hidden := by decide +kernel
    have hdirectory : tree.isFile "." = false := by decide +kernel
    have hsources : tree.sources "." = [pathBelow "." [hidden, "a.res"]] := by decide +kernel
    refine ⟨hnamed, hlist, hhidden, by decide +kernel, hdirectory, hsources, ?_⟩
    rintro ⟨names, hentry, hnone, hextension, hopen⟩
    -- what is offered is found, so it is the one file that is
    have hm : pathBelow "." names ∈ tree.sources "." :=
      (mem_sources_iff hnamed hlist hdirectory).mpr ⟨names,
        ⟨hentry, hnone, hextension, fun name hname hpassed => hopen name hname hpassed.2⟩, rfl⟩
    rw [hsources, List.mem_singleton] at hm
    have hcomponents := congrArg components hm
    rw [components_pathBelow (by decide +kernel) (hentry.isFileName hnamed),
      components_pathBelow (by decide +kernel) (by decide +kernel),
      List.append_cancel_left_eq] at hcomponents
    subst hcomponents
    exact hopen hidden List.mem_cons_self hhidden
  · intro long path tree
    refine ⟨by decide +kernel, listable_of_forall path (by decide +kernel), ?_, ?_, ?_, ?_⟩
    · decide +kernel
    · decide +kernel
    · decide +kernel
    · decide +kernel

end FileTree

end ResourceDecl
