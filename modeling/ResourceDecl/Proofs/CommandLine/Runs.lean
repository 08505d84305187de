import ResourceDecl.CommandLine.Run
import ResourceDecl.Proofs.CommandLine.Changes

/-!
# Runs of the command that formats

A run is a walk over trees: each file is read in the tree that the files before it leave
(`FileTree.stages`).

* `FileTree.run_reformat_stages`: what any run prints, and the tree behind it.
* `FileTree.run_reformat`: the same where no write is refused, from the sources that the run finds on
  its way (`FileTree.visits`).
* `FileTree.visits_of_undisturbed`: the sources are those of the first tree unless a file is written
  and met again.
* `FileTree.stdout_of_undisturbed`: such a run prints the changes of the first tree.
-/

namespace ResourceDecl

open Text

/-- A file with its source when the command takes it up. -/
structure Visit where
  path : RawText
  source : Except SourceError String
deriving DecidableEq

/-- What becomes of a file that was taken up. -/
def Visit.report (config : LayoutConfig) (v : Visit) : FileReport :=
  ⟨v.path, judge config v.source⟩

/-- The file cannot be read or has problems. -/
def Visit.isBroken (v : Visit) : Bool :=
  match v.source with
  | .ok source => !(Document.ofSource source).problems.isEmpty
  | .error _ => true

/-- A file that the command takes up, with the trees in front of it and behind it. -/
structure Stage where
  path : RawText
  before : FileTree
  after : FileTree

/-- What is reported of a file: a refused write in place of the change that was to be written. -/
def Stage.report (options : ReformatOptions) (s : Stage) : FileReport :=
  match judge options.config (s.before.source s.path) with
  | .unformatted old new =>
    if options.isDryRun then ⟨s.path, .unformatted old new⟩
    else
      match s.before.write s.path new with
      | .ok _ => ⟨s.path, .unformatted old new⟩
      | .error reason => ⟨s.path, .unwritable reason⟩
  | verdict => ⟨s.path, verdict⟩

/-- What a run prints of a file that is due for a change. -/
def Change.printed (options : ReformatOptions) (c : Change) : String :=
  FileReport.stdout options ⟨c.path, .unformatted c.old c.new⟩

namespace FileTree

variable {tree : FileTree} {path : RawText} {paths : List RawText}

/-! ## Files one behind the other -/

/-- The tree behind a file that the command takes up. -/
def reformatted (options : ReformatOptions) (tree : FileTree) (path : RawText) : FileTree :=
  if options.isDryRun then tree else tree.rewrite options.config path

/-- The files that the command takes up one behind the other. -/
def visits (options : ReformatOptions) (tree : FileTree) : List RawText → List Visit
  | [] => []
  | path :: paths =>
    ⟨path, tree.source path⟩ :: visits options (tree.reformatted options path) paths

/-- The stages of a run over files. -/
def stages (options : ReformatOptions) (tree : FileTree) : List RawText → List Stage
  | [] => []
  | path :: paths =>
    ⟨path, tree, tree.reformatted options path⟩ ::
      stages options (tree.reformatted options path) paths

theorem keeps_reformatted (options : ReformatOptions) (tree : FileTree) (path : RawText) :
    tree.Keeps (tree.reformatted options path) := by
  rw [reformatted]
  split
  · exact .refl tree
  · exact keeps_rewrite options.config tree path

/-- One file: it is judged as it is found, and rewritten if it is due and this is no dry run. -/
theorem run_reformatFile (options : ReformatOptions) (tree : FileTree) (path : RawText) :
    (reformatFile access options path).run tree =
      (Stage.report options ⟨path, tree, tree.reformatted options path⟩,
        tree.reformatted options path) := by
  rw [reformatFile, run_bind (run_readSource tree path), Stage.report, reformatted]
  cases hjudge : judge options.config (tree.source path) with
  | unformatted old new =>
    by_cases hdry : options.isDryRun
    · simp only [if_pos hdry]
      rfl
    · have hc : tree.change? options.config path = some ⟨path, old, new⟩ :=
        change?_eq_some_iff_judge.mpr ⟨rfl, hjudge⟩
      simp only [if_neg hdry, rewrite, hc]
      cases hwrite : tree.write path new with
      | ok after =>
        rw [run_bind (run_write hwrite)]
        rfl
      | error reason =>
        rw [run_bind (run_write_refused hwrite)]
        rfl
  | _ =>
    have hnone : tree.change? options.config path = none := by
      simp only [change?, hjudge]
    simp only [rewrite_of_change?_eq_none hnone, ite_self]
    rfl

/-- The command takes up the files one behind the other, each in the tree that the files before it
leave. -/
theorem run_reformatFiles (options : ReformatOptions) (tree : FileTree)
    (paths : List RawText) :
    (reformatFiles access options paths).run tree =
      ((tree.stages options paths).map (Stage.report options),
        paths.foldl (reformatted options) tree) := by
  induction paths generalizing tree with
  | nil => rfl
  | cons path paths ih =>
    rw [reformatFiles, run_bind (run_reformatFile options tree path), run_bind (ih _)]
    rfl

/-- A file that may be written is reported as it is judged. -/
theorem report_of_allowsWriting (options : ReformatOptions) (hwritable : tree.AllowsWriting path)
    (after : FileTree) : Stage.report options ⟨path, tree, after⟩ =
      Visit.report options.config ⟨path, tree.source path⟩ := by
  simp only [Stage.report, Visit.report]
  cases hjudge : judge options.config (tree.source path) with
  | unformatted old new =>
    have hc : tree.change? options.config path = some ⟨path, old, new⟩ :=
      change?_eq_some_iff_judge.mpr ⟨rfl, hjudge⟩
    have hdue := (change?_eq_some_iff.mp hc).2
    simp only [write_of_allowsWriting hwritable hdue rfl, ite_self]
  | _ => rfl

theorem map_report_stages (options : ReformatOptions) {paths : List RawText}
    (hwritable : ∀ path ∈ paths, tree.AllowsWriting path) :
    (tree.stages options paths).map (Stage.report options) =
      (tree.visits options paths).map (Visit.report options.config) := by
  induction paths generalizing tree with
  | nil => rfl
  | cons path paths ih =>
    obtain ⟨hfirst, hrest⟩ := List.forall_mem_cons.mp hwritable
    have hkeeps := keeps_reformatted options tree path
    have hlater := ih fun other hother => (hrest other hother).of_keeps hkeeps
    rw [stages, visits, List.map_cons, List.map_cons, report_of_allowsWriting options hfirst,
      hlater]

/-- No write to a file that the path stands for is refused. -/
def Writable (tree : FileTree) (path : RawText) : Prop :=
  ∀ file ∈ tree.sources path, tree.AllowsWriting file

instance : Decidable (tree.Writable path) :=
  inferInstanceAs (Decidable (∀ file ∈ tree.sources path, tree.AllowsWriting file))

/-- What a command gives on a tree, and the tree behind it. -/
def run (tree : FileTree) (request : Request) : Outcome × FileTree :=
  (request.run access).run tree

theorem run_reformat_stages (options : ReformatOptions) (tree : FileTree) (path : RawText) :
    tree.run (.reformat path options) =
      (if tree.sources path = [] then .failed (.general (SourceError.nothingFound path).message)
        else reformatOutcome options
          ((tree.stages options (tree.sources path)).map (Stage.report options)),
        (tree.sources path).foldl (reformatted options) tree) := by
  rw [run, Request.run, reformat, run_bind (run_sourcePaths tree path)]
  have hrun := run_reformatFiles options tree (tree.sources path)
  cases hsources : tree.sources path with
  | nil => rfl
  | cons first paths =>
    rw [hsources] at hrun
    rw [if_neg (List.cons_ne_nil first paths)]
    exact run_bind hrun _

theorem run_reformat (options : ReformatOptions) (hwritable : tree.Writable path) :
    tree.run (.reformat path options) =
      (if tree.sources path = [] then .failed (.general (SourceError.nothingFound path).message)
        else reformatOutcome options
          ((tree.visits options (tree.sources path)).map (Visit.report options.config)),
        (tree.sources path).foldl (reformatted options) tree) := by
  rw [run_reformat_stages, map_report_stages options hwritable]

/-! ## Trees on the way -/

theorem foldl_reformatted_of_isDryRun {options : ReformatOptions} (hdry : options.isDryRun) :
    paths.foldl (reformatted options) tree = tree := by
  induction paths with
  | nil => rfl
  | cons path paths ih => rw [List.foldl_cons, reformatted, if_pos hdry, ih]

theorem foldl_reformatted_of_not_isDryRun {options : ReformatOptions}
    (hwrite : options.isDryRun = false) (tree : FileTree) (paths : List RawText) :
    paths.foldl (reformatted options) tree = paths.foldl (rewrite options.config) tree := by
  have hstep : reformatted options = rewrite options.config := by
    funext before path
    rw [reformatted, hwrite]
    rfl
  rw [hstep]

/-- The first file is written, and the second one is the same file. -/
def Disturbs (options : ReformatOptions) (tree : FileTree) (path other : RawText) : Prop :=
  options.isDryRun = false ∧ tree.change? options.config path ≠ none ∧ tree.SameFile path other

/-- No file is written and met again. -/
def Undisturbed (options : ReformatOptions) (tree : FileTree) (paths : List RawText) : Prop :=
  paths.Pairwise fun path other => ¬ tree.Disturbs options path other

theorem undisturbed_of_isDryRun {options : ReformatOptions} (hdry : options.isDryRun)
    (tree : FileTree) (paths : List RawText) : tree.Undisturbed options paths := by
  refine List.pairwise_of_forall fun path other hdisturbs => ?_
  have hwrite := hdisturbs.1
  rw [hdry] at hwrite
  cases hwrite

theorem openFile_reformatted {options : ReformatOptions} {other : RawText}
    (h : ¬ tree.Disturbs options path other) :
    (tree.reformatted options path).openFile other = tree.openFile other := by
  rw [reformatted]
  split
  · rfl
  · rename_i hdry
    refine openFile_rewrite fun c hc hsame => h ⟨by simpa using hdry, ?_, hsame⟩
    rw [hc]
    exact Option.some_ne_none c

theorem source_reformatted {options : ReformatOptions} {other : RawText}
    (h : ¬ tree.Disturbs options path other) :
    (tree.reformatted options path).source other = tree.source other :=
  (keeps_reformatted options tree path).source_eq (openFile_reformatted h)

/-- The files that are taken up are found as they were in the first tree. -/
theorem visits_of_undisturbed {options : ReformatOptions}
    (h : tree.Undisturbed options paths) :
    tree.visits options paths = paths.map fun path => ⟨path, tree.source path⟩ := by
  induction paths generalizing tree with
  | nil => rfl
  | cons path paths ih =>
    obtain ⟨hfirst, hrest⟩ := List.pairwise_cons.mp h
    have hkeeps := keeps_reformatted options tree path
    -- the files that follow are due behind the first file exactly if they were due in front of it
    have hlater : (tree.reformatted options path).Undisturbed options paths := by
      refine hrest.imp_of_mem fun {p q} hp hq hpq hdisturbs => hpq ?_
      obtain ⟨hdry, hchange, hsame⟩ := hdisturbs
      rw [change?, source_reformatted (hfirst p hp), ← change?] at hchange
      exact ⟨hdry, hchange, hkeeps.sameFile_iff.mp hsame⟩
    rw [visits, ih hlater, List.map_cons]
    refine congrArg _ (List.map_congr_left fun p hp => ?_)
    rw [source_reformatted (hfirst p hp)]

/-! ## Printed text -/

/-- The file cannot be read or has problems. -/
def isBroken (tree : FileTree) (path : RawText) : Bool :=
  Visit.isBroken ⟨path, tree.source path⟩

/-- The last line that a run prints; a dry run that finds a file to be formatted has none. -/
def closing (options : ReformatOptions) (tree : FileTree) (path : RawText) : String :=
  let files := tree.sources path
  let changes := tree.changes options.config path
  if files = [] then ""
  else if options.isDryRun then
    if changes = [] then "✓ " ++ toString files.length ++ " file(s) already formatted\n" else ""
  else
    "\n✓ " ++ toString changes.length ++ " file(s) formatted, " ++
      toString (files.countP tree.isBroken) ++ " error(s)\n"

theorem stdout_report (options : ReformatOptions) (tree : FileTree) (path : RawText) :
    (Visit.report options.config ⟨path, tree.source path⟩).stdout options =
      ((tree.change? options.config path).map (Change.printed options)).getD "" := by
  rw [Visit.report, change?]
  cases judge options.config (tree.source path) <;> rfl

theorem isUnformatted_report (config : LayoutConfig) (tree : FileTree) (path : RawText) :
    (Visit.report config ⟨path, tree.source path⟩).isUnformatted =
      (tree.change? config path).isSome := by
  rw [Visit.report, change?]
  cases judge config (tree.source path) <;> rfl

theorem isError_report (config : LayoutConfig) (v : Visit) :
    (v.report config).isError = v.isBroken := by
  rw [Visit.report, Visit.isBroken]
  cases v.source with
  | error reason => rfl
  | ok source =>
    simp only [judge, format, Document.format]
    cases hproblems : (Document.ofSource source).problems with
    | nil =>
      simp only [List.isEmpty_nil, if_true]
      split <;> rfl
    | cons problem problems => rfl

theorem join_map_getD {α β : Type} (f : α → Option β) (text : β → String) (items : List α) :
    String.join (items.map fun a => ((f a).map text).getD "") =
      String.join ((items.filterMap f).map text) := by
  induction items with
  | nil => rfl
  | cons a items ih =>
    cases h : f a with
    | none => simp [h, ih]
    | some b => simp [h, ih]

/-- Some file is reported as not formatted if there is a change. -/
theorem any_isUnformatted_iff (config : LayoutConfig) (tree : FileTree) (path : RawText) :
    ((tree.sources path).map fun p => Visit.report config ⟨p, tree.source p⟩).any
        FileReport.isUnformatted ↔ tree.changes config path ≠ [] := by
  simp only [changes, ne_eq, List.filterMap_eq_nil_iff, List.any_map, List.any_eq_true,
    Function.comp_apply, isUnformatted_report]
  push Not
  simp only [Option.isSome_iff_ne_none]

theorem stdout_summary (options : ReformatOptions) (tree : FileTree) {path : RawText}
    (hsources : tree.sources path ≠ []) :
    let reports := (tree.sources path).map fun p => Visit.report options.config ⟨p, tree.source p⟩
    (if options.isDryRun then dryRunSummary options reports else writeSummary reports).stdout =
      tree.closing options path := by
  intro reports
  have hany := any_isUnformatted_iff options.config tree path
  have hformatted : reports.countP FileReport.isUnformatted =
      (tree.changes options.config path).length := by
    rw [List.countP_map, changes, List.length_filterMap_eq_countP]
    exact List.countP_congr fun p _ => by rw [Function.comp_apply, isUnformatted_report]
  have herrors : reports.countP FileReport.isError = (tree.sources path).countP tree.isBroken := by
    rw [List.countP_map]
    exact List.countP_congr fun p _ => by rw [Function.comp_apply, isError_report, isBroken]
  rw [closing, if_neg hsources]
  by_cases hdry : options.isDryRun
  · rw [if_pos hdry, if_pos hdry, dryRunSummary]
    by_cases hchanges : tree.changes options.config path = []
    · rw [if_neg (fun h => hany.mp h hchanges), if_pos hchanges, List.length_map]
    · rw [if_pos (hany.mpr hchanges), if_neg hchanges]
      rfl
  · rw [if_neg hdry, if_neg hdry, writeSummary, hformatted, herrors]

theorem stdout_of_undisturbed {options : ReformatOptions} (hwritable : tree.Writable path)
    (h : tree.Undisturbed options (tree.sources path)) :
    (tree.run (.reformat path options)).1.stdout =
      String.join ((tree.changes options.config path).map (Change.printed options)) ++
        tree.closing options path := by
  rw [run_reformat options hwritable, visits_of_undisturbed h, List.map_map]
  by_cases hsources : tree.sources path = []
  · simp only [closing, changes, hsources]
    rfl
  · have hprinted := join_map_getD (tree.change? options.config) (Change.printed options)
      (tree.sources path)
    simp only [← stdout_report] at hprinted
    simp only [if_neg hsources]
    rw [changes, ← hprinted, ← stdout_summary options tree hsources, reformatOutcome, List.map_map]
    rfl

end FileTree

end ResourceDecl
