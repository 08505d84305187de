import ResourceDecl.Proofs.CommandLine.Runs

/-!
# Exit statuses

A command that reads one source ends with status 2 if it finds a problem. The command that formats
ends with status 1 then, as it does after a dry run that finds a file to be formatted.

* `FileTree.taken`, `FileTree.findsProblem`: the files that a command takes up, and whether one of
  them has a problem that the command looks for.
* `FileTree.exitStatus_run`: the exit status of a command that can read and write its files.
-/

namespace ResourceDecl

open Text

/-- The command that is run: a bare path is checked. -/
def Invocation.command? (invocation : Invocation) : Option Request :=
  invocation.request.or (invocation.file.map Request.check)

/-- What a command looks for in a source: lexical problems only, or any. -/
def Request.problems : Request → String → List Problem
  | .lex _, source => (TokenStream.ofSource source).problems
  | _, source => (Document.ofSource source).problems

/-- What a command finds in a file that it takes up. -/
def Visit.problems (request : Request) (v : Visit) : List Problem :=
  match v.source with
  | .ok source => request.problems source
  | .error _ => []

namespace FileTree

variable {tree : FileTree} {path : RawText}

/-- The files that a command takes up, with their sources as it finds them. -/
def taken (tree : FileTree) : Request → List Visit
  | .check path | .lex path | .parse path _ => [⟨path, tree.source path⟩]
  | .reformat path options => tree.visits options (tree.sources path)

/-- The command finds a problem. -/
def findsProblem (tree : FileTree) (request : Request) : Bool :=
  (tree.taken request).any fun v => !(v.problems request).isEmpty

/-- The exit status of a command that can read and write its files: 2 if it reads one source and
finds a problem, 1 if it formats and finds a problem or, in a dry run, a file that is to be
formatted, and else 0. -/
def statusOf (tree : FileTree) (request : Request) : Nat :=
  match request with
  | .reformat path options =>
    if tree.findsProblem request ∨
        options.isDryRun ∧ tree.changes options.config path ≠ [] then 1 else 0
  | _ => if tree.findsProblem request then 2 else 0

/-! ## Commands that read one source -/

theorem run_check (tree : FileTree) (path : RawText) :
    tree.run (.check path) = (checkOutcome path (tree.source path), tree) := by
  rw [run, Request.run, run_bind (run_readSource tree path)]
  rfl

theorem run_lex (tree : FileTree) (path : RawText) :
    tree.run (.lex path) = (lexOutcome path (tree.source path), tree) := by
  rw [run, Request.run, run_bind (run_readSource tree path)]
  rfl

theorem run_parse (tree : FileTree) (path : RawText) (json : Bool) :
    tree.run (.parse path json) = (parseOutcome path json (tree.source path), tree) := by
  rw [run, Request.run, run_bind (run_readSource tree path)]
  rfl

theorem exitStatus_withProgram (path : RawText) (source : String) (use : Program → String) :
    (withProgram path (.ok source) use).exitStatus =
      if !(Document.ofSource source).problems.isEmpty then 2 else 0 := by
  simp only [withProgram, withSource, Document.strict]
  cases (Document.ofSource source).problems <;> rfl

theorem exitStatus_lexOutcome (path : RawText) (source : String) :
    (lexOutcome path (.ok source)).exitStatus =
      if !(TokenStream.ofSource source).problems.isEmpty then 2 else 0 := by
  simp only [lexOutcome, withSource, Outcome.exitStatus]
  cases (TokenStream.ofSource source).problems <;> rfl

theorem findsProblem_of_taken {request : Request} {source : String}
    (htaken : tree.taken request = [⟨path, tree.source path⟩])
    (hsource : tree.source path = .ok source) :
    tree.findsProblem request = !(request.problems source).isEmpty := by
  rw [findsProblem, htaken, hsource]
  exact Bool.or_false _

/-! ## The command that formats -/

theorem exitStatus_dryRunSummary (options : ReformatOptions) (reports : List FileReport) :
    (dryRunSummary options reports).exitStatus =
      if reports.any FileReport.isError ∨ reports.any FileReport.isUnformatted then 1 else 0 := by
  rw [dryRunSummary]
  by_cases hunformatted : reports.any FileReport.isUnformatted
  · rw [if_pos hunformatted, if_pos (Or.inr hunformatted)]
    rfl
  · rw [if_neg hunformatted]
    by_cases herror : reports.any FileReport.isError
    · simp only [if_pos herror, if_pos (Or.inl herror)]
      rfl
    · simp only [if_neg herror, if_neg (not_or.mpr ⟨herror, hunformatted⟩)]
      rfl

theorem exitStatus_writeSummary (reports : List FileReport) :
    (writeSummary reports).exitStatus = if reports.any FileReport.isError then 1 else 0 := by
  rw [writeSummary]
  by_cases herror : reports.any FileReport.isError
  · simp only [if_pos herror]
    rfl
  · simp only [if_neg herror]
    rfl

theorem exitStatus_reformatOutcome (options : ReformatOptions) (reports : List FileReport) :
    (reformatOutcome options reports).exitStatus =
      if reports.any FileReport.isError ∨
          options.isDryRun ∧ reports.any FileReport.isUnformatted then 1 else 0 := by
  have hsummary : (reformatOutcome options reports).exitStatus =
      (if options.isDryRun then dryRunSummary options reports
        else writeSummary reports).exitStatus := rfl
  rw [hsummary]
  by_cases hdry : options.isDryRun
  · rw [if_pos hdry, exitStatus_dryRunSummary]
    simp only [hdry, true_and]
  · rw [if_neg hdry, exitStatus_writeSummary]
    simp only [hdry, false_and, or_false, Bool.false_eq_true]

theorem map_path_visits (options : ReformatOptions) (tree : FileTree) (paths : List RawText) :
    (tree.visits options paths).map Visit.path = paths := by
  induction paths generalizing tree with
  | nil => rfl
  | cons path paths ih => exact congrArg (path :: ·) (ih _)

/-- A file that can be read is reported as an error if it has a problem. -/
theorem any_isError_visits {options : ReformatOptions}
    (hread : ∀ v ∈ tree.taken (.reformat path options), ∃ source, v.source = .ok source) :
    ((tree.visits options (tree.sources path)).map (Visit.report options.config)).any
        FileReport.isError = tree.findsProblem (.reformat path options) := by
  rw [findsProblem, taken, List.any_map, Bool.eq_iff_iff, List.any_eq_true, List.any_eq_true]
  refine exists_congr fun v => and_congr_right fun hv => ?_
  obtain ⟨source, hsource⟩ := hread v hv
  rw [Function.comp_apply, isError_report, Visit.isBroken, Visit.problems, hsource]
  rfl

/-! ## All commands -/

theorem run_invocation {invocation : Invocation} {request : Request}
    (hcommand : invocation.command? = some request) (tree : FileTree) :
    (invocation.run access).run tree = tree.run request := by
  obtain ⟨_ | given, _ | path⟩ := invocation
  · cases hcommand
  all_goals
    cases hcommand
    rfl

/-- The exit status of a command that finds files and can read and write all of them. -/
theorem exitStatus_run (tree : FileTree) {invocation : Invocation} {request : Request}
    (hcommand : invocation.command? = some request) (hfound : tree.taken request ≠ [])
    (hread : ∀ v ∈ tree.taken request, ∃ source, v.source = .ok source)
    (hwritable : ∀ v ∈ tree.taken request, tree.AllowsWriting v.path) :
    ((invocation.run access).run tree).1.exitStatus = tree.statusOf request := by
  rw [run_invocation hcommand]
  unfold statusOf
  cases request with
  | check path =>
    obtain ⟨source, hsource : tree.source path = .ok source⟩ :=
      hread _ (List.mem_singleton_self _)
    rw [run_check, findsProblem_of_taken rfl hsource, hsource]
    exact exitStatus_withProgram path source _
  | lex path =>
    obtain ⟨source, hsource : tree.source path = .ok source⟩ :=
      hread _ (List.mem_singleton_self _)
    rw [run_lex, findsProblem_of_taken rfl hsource, hsource]
    exact exitStatus_lexOutcome path source
  | parse path json =>
    obtain ⟨source, hsource : tree.source path = .ok source⟩ :=
      hread _ (List.mem_singleton_self _)
    rw [run_parse, findsProblem_of_taken rfl hsource, hsource]
    exact exitStatus_withProgram path source _
  | reformat path options =>
    have hsources : tree.sources path ≠ [] := by
      intro hnone
      exact hfound (by rw [taken, hnone, visits])
    have hfiles : tree.Writable path := by
      intro file hfile
      rw [← map_path_visits options tree (tree.sources path)] at hfile
      obtain ⟨v, hv, rfl⟩ := List.mem_map.mp hfile
      exact hwritable v hv
    rw [run_reformat options hfiles]
    simp only [if_neg hsources]
    rw [exitStatus_reformatOutcome, any_isError_visits hread]
    refine if_congr (or_congr_right (and_congr_right fun hdry => ?_)) rfl rfl
    rw [visits_of_undisturbed (undisturbed_of_isDryRun hdry tree _), List.map_map]
    exact any_isUnformatted_iff options.config tree path

theorem exitStatus_run_directory :
    let tree : FileTree := { entries := [
      (["a.res"], .file "BITMAP a\n".toUTF8),
      (["b.res"], .file "WAV x \"y.wav\" PCM\n".toUTF8)] }
    let request : Request := .reformat "." { check := true }
    let invocation : Invocation := ⟨some request, none⟩
    invocation.command? = some request ∧ tree.taken request ≠ [] ∧
      (∀ v ∈ tree.taken request, ∃ source, v.source = .ok source) ∧
      (∀ v ∈ tree.taken request, tree.AllowsWriting v.path) ∧
      ((invocation.run access).run tree).1.exitStatus = 1 := by
  intro tree request invocation
  have htaken : tree.taken request =
      [⟨"./a.res", .ok "BITMAP a\n"⟩, ⟨"./b.res", .ok "WAV x \"y.wav\" PCM\n"⟩] := by
    decide +kernel
  have hfound : tree.taken request ≠ [] := htaken ▸ List.cons_ne_nil _ _
  have hread : ∀ v ∈ tree.taken request, ∃ source, v.source = .ok source := by
    rw [htaken]
    simp
  have hwritable : ∀ v ∈ tree.taken request, tree.AllowsWriting v.path := by
    decide +kernel
  have hstatus : tree.statusOf request = 1 := by
    decide +kernel
  exact ⟨rfl, hfound, hread, hwritable,
    (exitStatus_run tree rfl hfound hread hwritable).trans hstatus⟩

/-- A problem that a check ends with status 2 for is one that formatting ends with status 1 for. -/
theorem exitStatus_of_broken_file :
    let tree : FileTree := { entries := [(["a.res"], .file "BITMAP a\n".toUTF8)] }
    let visits : List Visit := [⟨"a.res", .ok "BITMAP a\n"⟩]
    tree.taken (.check "a.res") = visits ∧ tree.taken (.reformat "a.res" {}) = visits ∧
      tree.AllowsWriting "a.res" ∧
      tree.findsProblem (.check "a.res") ∧ tree.findsProblem (.reformat "a.res" {}) ∧
      (tree.run (.check "a.res")).1.exitStatus = 2 ∧
      (tree.run (.reformat "a.res" {})).1.exitStatus ≠ 2 := by
  decide +kernel

end FileTree

end ResourceDecl
