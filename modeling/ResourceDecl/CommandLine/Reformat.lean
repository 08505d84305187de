import ResourceDecl.CommandLine.Outcome
import ResourceDecl.Files.Discovery
import ResourceDecl.Layout

/-!
# The command that formats

Every file that a path stands for is read, compared with its formatted text, and overwritten unless
this is a dry run. A file that cannot be read or has problems is reported and left alone, and the
next file is taken up.

* `judge`: what becomes of one source.
* `reformatFile`, `reformatFiles`: the same on files.
* `reformatOutcome`: what the command prints, and how it fails.
-/

namespace ResourceDecl

open Text

/-- What the command is asked for. Without `check` and `diff` it overwrites files. -/
structure ReformatOptions where
  check : Bool := false
  diff : Bool := false
  align : Bool := false
deriving DecidableEq, Inhabited

namespace ReformatOptions

/-- No file is to be changed. -/
def isDryRun (options : ReformatOptions) : Bool :=
  options.check || options.diff

/-- The layout that files get. -/
def config (options : ReformatOptions) : LayoutConfig :=
  { alignKeywords := options.align }

end ReformatOptions

/-! ## Files -/

/-- What becomes of a file. -/
inductive Verdict
  | unreadable (reason : SourceError)
  | invalid (problems : List Problem)
  | formatted
  | unformatted (old new : String)
  | unwritable (reason : AccessError)
deriving DecidableEq, Inhabited

/-- A file and what becomes of it. -/
structure FileReport where
  path : RawText
  verdict : Verdict
deriving DecidableEq, Inhabited

/-- What becomes of a source. -/
def judge (config : LayoutConfig) : Except SourceError String → Verdict
  | .error reason => .unreadable reason
  | .ok source =>
    match format config source with
    | .error problems => .invalid problems
    | .ok text => if source = text then .formatted else .unformatted source text

variable {m : Type → Type} [Monad m]

/-- Judge a file, and overwrite it unless this is a dry run. -/
def reformatFile (files : FileAccess m) (options : ReformatOptions) (path : RawText) :
    m FileReport := do
  match judge options.config (← readSource files path) with
  | .unformatted old new =>
    if options.isDryRun then return ⟨path, .unformatted old new⟩
    else
      match ← files.write path new with
      | .ok () => return ⟨path, .unformatted old new⟩
      | .error reason => return ⟨path, .unwritable reason⟩
  | verdict => return ⟨path, verdict⟩

/-- Judge the files one behind the other. -/
def reformatFiles (files : FileAccess m) (options : ReformatOptions) :
    List RawText → m (List FileReport)
  | [] => return []
  | path :: paths => do
    let report ← reformatFile files options path
    let reports ← reformatFiles files options paths
    return report :: reports

/-! ## Reports -/

namespace FileReport

/-- The file differs from its formatted text. -/
def isUnformatted (report : FileReport) : Bool :=
  report.verdict matches .unformatted ..

/-- The file could not be read, understood or written. -/
def isError (report : FileReport) : Bool :=
  report.verdict matches .unreadable _ | .invalid _ | .unwritable _

/-- What is printed of a file. -/
def stdout (options : ReformatOptions) (report : FileReport) : String :=
  match report.verdict with
  | .unformatted old new =>
    (if options.diff then "--- " ++ report.path.display ++ "\n" ++ (lineDiff old new).getD "" ++ "\n"
      else "") ++
    (if options.check then "Would reformat: " ++ report.path.display ++ "\n" else "") ++
    (if options.isDryRun then "" else "Formatted: " ++ report.path.display ++ "\n")
  | _ => ""

/-- What is printed of a file that is left alone. -/
def stderr (report : FileReport) : String :=
  match report.verdict with
  | .unreadable reason => reason.message ++ "\n"
  | .invalid problems =>
    String.join (problems.map fun p => p.diagnostic.short report.path.display ++ "\n") ++
      "Error formatting " ++ report.path.display ++ ": " ++ refusal problems ++ "\n"
  | .unwritable reason => "Error writing " ++ report.path.display ++ ": " ++ reason.message ++ "\n"
  | _ => ""

end FileReport

/-- The last line of a dry run. -/
def dryRunSummary (options : ReformatOptions) (reports : List FileReport) : Outcome :=
  let number := toString reports.length
  let complaint := if options.diff then "need formatting" else "would be reformatted"
  if reports.any FileReport.isUnformatted then
    .failed (.general ("\n" ++ number ++ " file(s) " ++ complaint))
  else
    { stdout := "✓ " ++ number ++ " file(s) already formatted\n"
      failure := if reports.any FileReport.isError then some (.general "") else none }

/-- The last line of a run that overwrites files. -/
def writeSummary (reports : List FileReport) : Outcome :=
  let formatted := toString (reports.countP FileReport.isUnformatted)
  let errors := toString (reports.countP FileReport.isError)
  { stdout := "\n✓ " ++ formatted ++ " file(s) formatted, " ++ errors ++ " error(s)\n"
    failure := if reports.any FileReport.isError then some (.general "") else none }

/-- What the command prints of its files, and how it fails. -/
def reformatOutcome (options : ReformatOptions) (reports : List FileReport) : Outcome :=
  let summary :=
    if options.isDryRun then dryRunSummary options reports else writeSummary reports
  { stdout := String.join (reports.map (FileReport.stdout options)) ++ summary.stdout
    stderr := String.join (reports.map FileReport.stderr)
    failure := summary.failure }

/-- Format the files that a path stands for. -/
def reformat (files : FileAccess m) (options : ReformatOptions) (path : RawText) :
    m Outcome := do
  match ← sourcePaths files path with
  | [] => return .failed (.general (SourceError.nothingFound path).message)
  | paths => return reformatOutcome options (← reformatFiles files options paths)

end ResourceDecl
