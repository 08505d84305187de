import ResourceDecl.Proofs.CommandLine.Runs

/-!
# Totals of a run that formats

Writes may be refused here, so what a run prints is read off its stages: for each file, the tree in
front of it and the tree behind it.

* `Stage.isUnformatted_report_iff`, `Stage.isError_report_iff`: what is counted of the files of a run
  that writes.
* `FileTree.reformat_totals`: the numbers in the last line of a run. A run that writes counts the
  files that it rewrites and those that it fails on; a dry run gives the number of all files that it
  takes up, whatever becomes of them.
-/

namespace ResourceDecl

open Text

namespace FileTree

/-- The file can be read, has no problems, and differs from its formatted text. -/
def IsDue (tree : FileTree) (config : LayoutConfig) (path : RawText) : Prop :=
  ∃ c, c.path = path ∧ tree.Due config c

/-- The file can be read and is its own formatted text. -/
def IsFormatted (tree : FileTree) (config : LayoutConfig) (path : RawText) : Prop :=
  ∃ text, tree.Holds path text ∧ format config text = .ok text

variable {tree : FileTree} {config : LayoutConfig} {path : RawText}

theorem isDue_iff : tree.IsDue config path ↔ (tree.change? config path).isSome := by
  rw [Option.isSome_iff_exists]
  exact exists_congr fun c => change?_eq_some_iff.symm

theorem isFormatted_iff :
    tree.IsFormatted config path ↔ judge config (tree.source path) = .formatted := by
  constructor
  · rintro ⟨text, hholds, hformat⟩
    rw [source_eq_ok_iff.mpr hholds]
    simp [judge, hformat]
  · intro h
    unfold judge at h
    split at h
    · cases h
    · rename_i text hsource
      split at h
      · cases h
      · rename_i formatted hformat
        split at h
        · rename_i hsame
          subst hsame
          exact ⟨_, source_eq_ok_iff.mp hsource, hformat⟩
        · cases h

instance : DecidablePred (tree.IsDue config) :=
  fun _ => decidable_of_iff _ isDue_iff.symm

instance : DecidablePred (tree.IsFormatted config) :=
  fun _ => decidable_of_iff _ isFormatted_iff.symm

end FileTree

namespace Stage

/-- The file was due for a change, and it holds its formatted text then. -/
def Rewrites (config : LayoutConfig) (s : Stage) : Prop :=
  ∃ c, c.path = s.path ∧ s.before.Due config c ∧ s.after.content s.path = .ok c.new.toUTF8

/-- The file cannot be read or has problems, or it was due for a change and is not rewritten. -/
def Fails (config : LayoutConfig) (s : Stage) : Prop :=
  s.before.isBroken s.path ∨ s.before.IsDue config s.path ∧ ¬ s.Rewrites config

theorem rewrites_iff {config : LayoutConfig} {s : Stage} :
    s.Rewrites config ↔ ∃ c ∈ s.before.change? config s.path,
      s.after.content s.path = .ok c.new.toUTF8 := by
  refine exists_congr fun c => ?_
  rw [Option.mem_def, FileTree.change?_eq_some_iff, and_assoc]

instance (config : LayoutConfig) : DecidablePred (Rewrites config) := fun s =>
  match hc : s.before.change? config s.path, hcontent : s.after.content s.path with
  | some c, .ok bytes => decidable_of_iff (bytes.data = c.new.toUTF8.data) (by
    rw [rewrites_iff, hc, hcontent]
    simp [ByteArray.ext_iff])
  | some _, .error _ => isFalse (by
    rw [rewrites_iff, hc, hcontent]
    simp)
  | none, _ => isFalse (by
    rw [rewrites_iff, hc]
    simp)

instance (config : LayoutConfig) : DecidablePred (Fails config) :=
  fun s => inferInstanceAs (Decidable
    (s.before.isBroken s.path ∨ s.before.IsDue config s.path ∧ ¬ s.Rewrites config))

end Stage

namespace FileTree

variable {tree : FileTree} {path : RawText} {paths : List RawText}

/-! ## What is reported of a stage -/

theorem isBroken_eq_false_of_change? {config : LayoutConfig} {c : Change}
    (hc : tree.change? config path = some c) : tree.isBroken path = false := by
  obtain ⟨rfl, hdue⟩ := change?_eq_some_iff.mp hc
  rw [isBroken, Visit.isBroken, source_eq_ok_iff.mpr hdue.holds]
  simp [hdue.sound]

/-- Each stage starts with the tree that it is given and ends with that in which its file is
formatted. -/
theorem after_of_mem_stages {options : ReformatOptions} {s : Stage}
    (hs : s ∈ tree.stages options paths) : s.after = s.before.reformatted options s.path := by
  induction paths generalizing tree with
  | nil => cases hs
  | cons path paths ih =>
    rcases List.mem_cons.mp hs with rfl | hs
    · rfl
    · exact ih hs

end FileTree

namespace Stage

variable {options : ReformatOptions} {s : Stage} {c : Change}

theorem report_of_settled (hc : s.before.change? options.config s.path = none) :
    s.report options = Visit.report options.config ⟨s.path, s.before.source s.path⟩ := by
  simp only [report, Visit.report]
  cases hjudge : judge options.config (s.before.source s.path) with
  | unformatted old new =>
    simp only [FileTree.change?, hjudge] at hc
    cases hc
  | _ => rfl

theorem report_of_isDryRun (hdry : options.isDryRun) :
    s.report options = Visit.report options.config ⟨s.path, s.before.source s.path⟩ := by
  simp only [report, Visit.report]
  cases judge options.config (s.before.source s.path) with
  | unformatted old new => exact if_pos hdry
  | _ => rfl

section Write

variable (hwrite : options.isDryRun = false)
  (hafter : s.after = s.before.reformatted options s.path)

include hwrite

theorem report_of_change? (hc : s.before.change? options.config s.path = some c) :
    s.report options = match s.before.write s.path c.new with
      | .ok _ => ⟨s.path, .unformatted c.old c.new⟩
      | .error reason => ⟨s.path, .unwritable reason⟩ := by
  have hjudge := (FileTree.change?_eq_some_iff_judge.mp hc).2
  cases hresult : s.before.write s.path c.new <;>
    simp only [report, hjudge, hwrite, hresult, Bool.false_eq_true, if_false]

include hafter

/-- A file that is due holds its formatted text then, unless the write is refused. -/
theorem rewrites_iff_write (hc : s.before.change? options.config s.path = some c) :
    s.Rewrites options.config ↔ ∃ after, s.before.write s.path c.new = .ok after := by
  obtain ⟨hpath, hdue⟩ := FileTree.change?_eq_some_iff.mp hc
  have hholds := hdue.holds.1
  rw [hpath] at hholds
  rw [rewrites_iff, hc]
  simp only [Option.mem_some_iff, exists_eq_left']
  rw [FileTree.reformatted, hwrite] at hafter
  simp only [FileTree.rewrite, hc, Bool.false_eq_true, if_false] at hafter
  cases hresult : s.before.write s.path c.new with
  | ok after =>
    rw [hresult] at hafter
    have hcontent := FileTree.content_of_write hresult hholds
    rw [hafter]
    exact iff_of_true hcontent ⟨after, rfl⟩
  | error reason =>
    -- the file is left as it was
    rw [hresult] at hafter
    rw [hafter]
    refine iff_of_false (fun hnew => ?_) (by simp)
    have hsame := Except.ok.inj (hholds.symm.trans hnew)
    exact hdue.differs (String.toByteArray_inj.mp hsame)

theorem isUnformatted_report_iff :
    (s.report options).isUnformatted ↔ s.Rewrites options.config := by
  cases hc : s.before.change? options.config s.path with
  | none =>
    rw [report_of_settled hc, FileTree.isUnformatted_report, hc, rewrites_iff, hc]
    simp
  | some c =>
    rw [report_of_change? hwrite hc, rewrites_iff_write hwrite hafter hc]
    cases s.before.write s.path c.new <;> simp [FileReport.isUnformatted]

theorem isError_report_iff : (s.report options).isError ↔ s.Fails options.config := by
  rw [Fails, FileTree.isDue_iff]
  cases hc : s.before.change? options.config s.path with
  | none =>
    rw [report_of_settled hc, FileTree.isError_report, FileTree.isBroken]
    simp
  | some c =>
    rw [report_of_change? hwrite hc, rewrites_iff_write hwrite hafter hc,
      FileTree.isBroken_eq_false_of_change? hc]
    cases s.before.write s.path c.new <;> simp [FileReport.isError]

/-- A run that writes prints a line for each file that it rewrites. -/
theorem stdout_report_eq : (s.report options).stdout options =
    if s.Rewrites options.config then "Formatted: " ++ s.path.display ++ "\n" else "" := by
  cases hc : s.before.change? options.config s.path with
  | none =>
    have hnot : ¬ s.Rewrites options.config := by
      rw [rewrites_iff, hc]
      simp
    rw [report_of_settled hc, FileTree.stdout_report, hc, if_neg hnot]
    rfl
  | some c =>
    obtain ⟨hcheck, hdiff⟩ : options.check = false ∧ options.diff = false :=
      Bool.or_eq_false_iff.mp hwrite
    have hrewrites := rewrites_iff_write hwrite hafter hc
    rw [report_of_change? hwrite hc, FileReport.stdout]
    cases hresult : s.before.write s.path c.new with
    | ok after =>
      rw [if_pos (hrewrites.mpr ⟨after, hresult⟩)]
      simp [hcheck, hdiff, hwrite]
    | error reason =>
      have hnot : ¬ s.Rewrites options.config := by
        intro h
        obtain ⟨after, hok⟩ := hrewrites.mp h
        cases hresult.symm.trans hok
      rw [if_neg hnot]

end Write

end Stage

/-! ## The last line of a run -/

namespace FileTree

variable {tree : FileTree} {path : RawText} {options : ReformatOptions}

/-- A file is due for a change, or it is formatted, or it cannot be read or has problems. -/
theorem length_eq_add (tree : FileTree) (config : LayoutConfig) (files : List RawText) :
    files.length = files.countP (tree.IsDue config ·) + files.countP (tree.IsFormatted config ·) +
      files.countP tree.isBroken := by
  have hone (file : RawText) : (if tree.IsDue config file then 1 else 0) +
      (if tree.IsFormatted config file then 1 else 0) +
        (if tree.isBroken file then 1 else 0) = 1 := by
    have hbroken := isError_report config ⟨file, tree.source file⟩
    rw [Visit.report] at hbroken
    simp only [isDue_iff, isFormatted_iff, isBroken, ← hbroken, change?]
    cases judge config (tree.source file) <;> rfl
  induction files with
  | nil => rfl
  | cons file files ih =>
    have hfile := hone file
    simp only [List.countP_cons, List.length_cons, decide_eq_true_eq]
    omega

/-- A dry run finds every file as it was in the first tree. -/
theorem map_report_of_isDryRun (hdry : options.isDryRun) (tree : FileTree) (paths : List RawText) :
    (tree.stages options paths).map (Stage.report options) =
      paths.map fun p => Visit.report options.config ⟨p, tree.source p⟩ := by
  induction paths with
  | nil => rfl
  | cons path paths ih =>
    have hsame : tree.reformatted options path = tree := by
      rw [reformatted, if_pos hdry]
    rw [stages, hsame, List.map_cons, List.map_cons, ih, Stage.report_of_isDryRun hdry]

theorem countP_isDue (tree : FileTree) (config : LayoutConfig) (path : RawText) :
    (tree.sources path).countP (tree.IsDue config ·) = (tree.changes config path).length := by
  rw [changes, List.length_filterMap_eq_countP]
  refine List.countP_congr fun p _ => ?_
  rw [decide_eq_true_eq, isDue_iff]

/-- A dry run that finds a file to be formatted ends with the number of all files. -/
theorem failure_of_isDryRun (hfound : tree.sources path ≠ []) (hdry : options.isDryRun)
    (hdue : tree.changes options.config path ≠ []) :
    (tree.run (.reformat path options)).1.failure = some (.general
      ("\n" ++ toString (tree.sources path).length ++ " file(s) " ++
        if options.diff then "need formatting" else "would be reformatted")) := by
  have hany := (any_isUnformatted_iff options.config tree path).mpr hdue
  simp only [run_reformat_stages, if_neg hfound, map_report_of_isDryRun hdry, reformatOutcome,
    if_pos hdry, dryRunSummary, if_pos hany, List.length_map]
  rfl

/-- A dry run that finds no file to be formatted prints the number of all files. -/
theorem stdout_of_isDryRun (hfound : tree.sources path ≠ []) (hdry : options.isDryRun)
    (hsettled : tree.changes options.config path = []) :
    (tree.run (.reformat path options)).1.stdout =
      "✓ " ++ toString (tree.sources path).length ++ " file(s) already formatted\n" := by
  let reports := (tree.sources path).map fun p => Visit.report options.config ⟨p, tree.source p⟩
  have hprinted : String.join (reports.map (FileReport.stdout options)) = "" := by
    have hchanges := join_map_getD (tree.change? options.config) (Change.printed options)
      (tree.sources path)
    have hnone : (tree.sources path).filterMap (tree.change? options.config) = [] := hsettled
    simp only [← stdout_report, hnone] at hchanges
    rw [List.map_map]
    exact hchanges
  have hclosing : (dryRunSummary options reports).stdout = tree.closing options path := by
    have hsummary := stdout_summary options tree hfound
    simp only [if_pos hdry] at hsummary
    exact hsummary
  simp only [run_reformat_stages, if_neg hfound, map_report_of_isDryRun hdry, reformatOutcome,
    if_pos hdry]
  rw [hprinted, hclosing, String.empty_append, closing]
  simp only [if_neg hfound, if_pos hdry, if_pos hsettled]

theorem countP_map_eq_length_filter {α β : Type} {f : α → β} {p : β → Bool} {q : α → Prop}
    [DecidablePred q] {items : List α} (h : ∀ a ∈ items, p (f a) ↔ q a) :
    (items.map f).countP p = (items.filter (q ·)).length := by
  rw [List.countP_map, ← List.countP_eq_length_filter]
  refine List.countP_congr fun a ha => ?_
  rw [decide_eq_true_eq]
  exact h a ha

/-- A run that writes prints the files that it rewrites, and how many it rewrites and fails on. -/
theorem stdout_of_not_isDryRun (hfound : tree.sources path ≠ []) (hwrite : options.isDryRun = false) :
    let stages := tree.stages options (tree.sources path)
    let rewritten := stages.filter (Stage.Rewrites options.config ·)
    let failed := stages.filter (Stage.Fails options.config ·)
    (tree.run (.reformat path options)).1.stdout =
      String.join (rewritten.map fun s => "Formatted: " ++ s.path.display ++ "\n") ++
        ("\n✓ " ++ toString rewritten.length ++ " file(s) formatted, " ++
          toString failed.length ++ " error(s)\n") := by
  intro stages rewritten failed
  have hafter : ∀ s ∈ stages, s.after = s.before.reformatted options s.path :=
    fun s hs => after_of_mem_stages hs
  have hrewritten : (stages.map (Stage.report options)).countP FileReport.isUnformatted =
      rewritten.length :=
    countP_map_eq_length_filter fun s hs =>
      Stage.isUnformatted_report_iff hwrite (hafter s hs)
  have hfailed : (stages.map (Stage.report options)).countP FileReport.isError =
      failed.length :=
    countP_map_eq_length_filter fun s hs => Stage.isError_report_iff hwrite (hafter s hs)
  have hprinted : String.join ((stages.map (Stage.report options)).map
      (FileReport.stdout options)) =
        String.join (rewritten.map fun s => "Formatted: " ++ s.path.display ++ "\n") := by
    have hlines := join_map_getD (Option.guard (Stage.Rewrites options.config ·))
      (fun s => "Formatted: " ++ s.path.display ++ "\n") stages
    rw [List.filterMap_eq_filter] at hlines
    rw [← hlines, List.map_map]
    refine congrArg String.join (List.map_congr_left fun s hs => ?_)
    rw [Function.comp_apply, Stage.stdout_report_eq hwrite (hafter s hs), Option.guard_def]
    by_cases h : s.Rewrites options.config <;> simp [h]
  simp only [run_reformat_stages, if_neg hfound, reformatOutcome, hwrite, Bool.false_eq_true,
    if_false]
  rw [hprinted, writeSummary, hrewritten, hfailed]

/-- What a run that finds files says of them in its last line, and how many of them there are. -/
theorem reformat_totals (tree : FileTree) (path : RawText) (options : ReformatOptions)
    (hfound : tree.sources path ≠ []) :
    let config := options.config
    let files := tree.sources path
    let due := files.countP (tree.IsDue config ·)
    let formatted := files.countP (tree.IsFormatted config ·)
    let broken := files.countP tree.isBroken
    let stages := tree.stages options files
    let rewritten := stages.filter (Stage.Rewrites config ·)
    let failed := stages.filter (Stage.Fails config ·)
    let outcome := (tree.run (.reformat path options)).1
    files.length = due + formatted + broken ∧
      (options.isDryRun → due ≠ 0 → outcome.failure = some (.general
        ("\n" ++ toString files.length ++ " file(s) " ++
          if options.diff then "need formatting" else "would be reformatted"))) ∧
      (options.isDryRun → due = 0 → outcome.stdout =
        "✓ " ++ toString files.length ++ " file(s) already formatted\n") ∧
      (options.isDryRun = false → outcome.stdout =
        String.join (rewritten.map fun s => "Formatted: " ++ s.path.display ++ "\n") ++
          ("\n✓ " ++ toString rewritten.length ++ " file(s) formatted, " ++
            toString failed.length ++ " error(s)\n")) := by
  intro config files due formatted broken stages rewritten failed outcome
  have hdue : due = 0 ↔ tree.changes config path = [] := by
    rw [← List.length_eq_zero_iff, ← countP_isDue]
  exact ⟨length_eq_add tree config files,
    fun hdry hne => failure_of_isDryRun hfound hdry (mt hdue.mpr hne),
    fun hdry hzero => stdout_of_isDryRun hfound hdry (hdue.mp hzero),
    stdout_of_not_isDryRun hfound⟩

theorem reformat_totals_directory :
    let tree : FileTree := { entries := [
      (["a.res"], .file "BITMAP  a \"x.png\"\n".toUTF8),
      (["b.res"], .file "ALIGN  4\n".toUTF8 { writable := false }),
      (["c.res"], .link "a.res"),
      (["d.res"], .file "NEAR\n".toUTF8),
      (["e.res"], .file "BITMAP\n".toUTF8),
      (["f.res"], .file "NEAR".toUTF8 { readable := false })] }
    tree.sources "." ≠ [] ∧
      (tree.run (.reformat "." ⟨true, false, false⟩)).1.failure =
        some (.general "\n6 file(s) would be reformatted") ∧
      (tree.run (.reformat "." ⟨false, false, false⟩)).1.stdout =
        "Formatted: ./a.res\n\n✓ 1 file(s) formatted, 3 error(s)\n" := by
  intro tree
  have hfound : tree.sources "." ≠ [] := by decide +kernel
  obtain ⟨-, hcheck, -, -⟩ := reformat_totals tree "." ⟨true, false, false⟩ hfound
  obtain ⟨-, -, -, hwrite⟩ := reformat_totals tree "." ⟨false, false, false⟩ hfound
  refine ⟨hfound, (hcheck rfl ?_).trans ?_, (hwrite rfl).trans ?_⟩
  · decide +kernel
  · decide +kernel
  · decide +kernel

/-- A check counts a file that is formatted among those that would be reformatted, and a file with
problems among those that are formatted. -/
theorem totals_of_other_files :
    let tree : FileTree := { entries := [
      (["a.res"], .file "BITMAP  a \"x.png\"\n".toUTF8),
      (["b.res"], .file "NEAR\n".toUTF8)] }
    let broken : FileTree := { entries := [(["a.res"], .file "BITMAP\n".toUTF8)] }
    let check : Request := .reformat "." ⟨true, false, false⟩
    (tree.run check).1.failure = some (.general "\n2 file(s) would be reformatted") ∧
      (tree.sources ".").countP (tree.IsDue {} ·) = 1 ∧
      (broken.run check).1.stdout = "✓ 1 file(s) already formatted\n" ∧
      (broken.sources ".").countP (broken.IsFormatted {} ·) = 0 := by
  decide +kernel

end FileTree

end ResourceDecl
