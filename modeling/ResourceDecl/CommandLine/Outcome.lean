import ResourceDecl.Files.RawText
import ResourceDecl.Problem

/-!
# Outcomes of commands

What a command prints and how it fails. A failure is general (exit status 1) or says that a source
was read and has problems (exit status 2).
-/

namespace ResourceDecl

/-- How a command fails. -/
inductive Failure
  | general (message : String)
  /-- The source at `path` has problems. -/
  | invalidSource (path : RawText) (problems : List Problem)
deriving DecidableEq, Inhabited

namespace Failure

/-- The exit status of the failure. -/
def exitStatus : Failure → Nat
  | general _ => 1
  | invalidSource .. => 2

/-- The last words of the failure. -/
def message : Failure → String
  | general message => message
  | invalidSource path problems => path.display ++ ": " ++ toString problems.length ++ " error(s)"

/-- The failure as a reader sees it: every problem on a line of its own, then the last words. -/
def report (failure : Failure) : String :=
  let problems := match failure with
    | general _ => []
    | invalidSource path problems => problems.map fun p => p.diagnostic.short path.display
  String.join ((problems ++ [failure.message]).map fun line =>
    if line.isEmpty then "" else line ++ "\n")

end Failure

/-- What a command prints and how it fails. -/
structure Outcome where
  stdout : String := ""
  stderr : String := ""
  failure : Option Failure := none
deriving DecidableEq, Inhabited

namespace Outcome

/-- A command that prints and succeeds. -/
def printed (text : String) : Outcome :=
  { stdout := text }

/-- A command that fails. -/
def failed (failure : Failure) : Outcome :=
  { failure := some failure }

/-- The exit status of the command. -/
def exitStatus (outcome : Outcome) : Nat :=
  match outcome.failure with
  | some failure => failure.exitStatus
  | none => 0

/-- The last words of a command that fails. -/
def message? (outcome : Outcome) : Option String :=
  outcome.failure.map Failure.message

end Outcome

end ResourceDecl
