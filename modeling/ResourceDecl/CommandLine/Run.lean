import ResourceDecl.CommandLine.Arguments
import ResourceDecl.CommandLine.Inspect

/-!
# Running commands

A command runs on any record of file operations. A bare path is checked; without a command and a
path there is nothing to do, which counts as a failure.
-/

namespace ResourceDecl

/-- The version of the tool. -/
def version : String := "0.1.0-alpha.1"

variable {m : Type → Type} [Monad m]

/-- Run a command. -/
def Request.run (files : FileAccess m) : Request → m Outcome
  | check path => do return checkOutcome path (← readSource files path)
  | lex path => do return lexOutcome path (← readSource files path)
  | parse path json => do return parseOutcome path json (← readSource files path)
  | reformat path options => ResourceDecl.reformat files options path

/-- Run the command that was given, or check the bare path. -/
def Invocation.run (files : FileAccess m) (invocation : Invocation) : m Outcome :=
  match invocation.request, invocation.file with
  | some request, _ => request.run files
  | none, some path => (Request.check path).run files
  | none, none => return .failed (.general "")

end ResourceDecl
