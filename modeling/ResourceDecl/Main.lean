import ResourceDecl.CommandLine.Run

/-!
# The tool on a disk

The operations of the commands on the disk of the machine (`disk`), and the program itself. All
that is decided here is how the system words its refusals.
-/

namespace ResourceDecl

/-- The number and the words of a refusal; the number may carry a sign. -/
def refusalData? : IO.Error → Option (UInt32 × String)
  | .alreadyExists _ code text | .interrupted _ code text | .noFileOrDirectory _ code text
  | .invalidArgument _ code text | .permissionDenied _ code text
  | .resourceExhausted _ code text | .inappropriateType _ code text | .noSuchThing _ code text
  | .otherError code text | .resourceBusy code text | .resourceVanished code text
  | .unsupportedOperation code text | .hardwareFault code text
  | .unsatisfiedConstraints code text | .illegalOperation code text | .protocolError code text
  | .timeExpired code text => some (code, text)
  | .unexpectedEof | .userError _ => none

/-- Why the system refuses a path. -/
def AccessError.ofRefusal (refusal : IO.Error) : AccessError :=
  match refusalData? refusal with
  | none => .other (toString refusal)
  | some (code, text) =>
    match code.toInt32.toInt.natAbs with
    | 2 => .notFound
    | 13 => .permissionDenied
    | 20 => .notDirectory
    | 21 => .isDirectory
    | 36 => .nameTooLong
    | 40 => .tooManyLinks
    | number => .other (text ++ " (os error " ++ toString number ++ ")")

/-- Take the result of an action, or the reason why it was refused. -/
def attempt {α : Type} (action : IO α) : IO (Except AccessError α) := do
  match ← action.toBaseIO with
  | .ok result => return .ok result
  | .error refusal => return .error (.ofRefusal refusal)

/-- A path as an entry of the working directory. -/
def entryAt (path : String) : IO.FS.DirEntry :=
  ⟨".", path⟩

/-- Act on a path. The disk is given paths that are texts only. -/
def attemptAt {α : Type} (path : RawText) (action : IO.FS.DirEntry → IO α) :
    IO (Except AccessError α) :=
  match path.text? with
  | some text => attempt (action (entryAt text))
  | none => return .error (.other "path is no text")

/-- The place that a path leads to is of the given type. -/
def leadsTo (type : IO.FS.FileType) (path : RawText) : IO Bool := do
  match ← attemptAt path fun entry => entry.path.metadata with
  | .ok place => return place.type == type
  | .error _ => return false

/-- The operations of the commands on the disk. -/
def disk : FileAccess IO where
  isFile := leadsTo .file
  isDirectory := leadsTo .dir
  names path := do
    match ← attemptAt path fun entry => entry.path.readDir with
    | .ok entries => return entries.toList.map fun entry => .ofString entry.fileName
    | .error _ => return []
  size path := attemptAt path fun entry => do return (← entry.path.metadata).byteSize.toNat
  read path := attemptAt path fun entry => IO.FS.readBinFile entry.fileName
  write path text := attemptAt path fun entry => IO.FS.writeFile entry.fileName text

/-- Say why no command was taken. -/
def explain : UsageError → IO Unit
  | .helpWanted => IO.print usage
  | .versionWanted => IO.println ("rescomp " ++ version)
  | mistake => IO.eprint ("error: " ++ mistake.name ++ "\n" ++ usage)

/-- Run the tool; returns its exit status. -/
def runTool (arguments : List String) : IO Nat := do
  match Invocation.ofArguments arguments with
  | .error reason =>
    explain reason
    return reason.exitStatus
  | .ok invocation =>
    let outcome ← invocation.run disk
    IO.print outcome.stdout
    IO.eprint outcome.stderr
    IO.eprint ((outcome.failure.map Failure.report).getD "")
    return outcome.exitStatus

end ResourceDecl

/-- The program. -/
def main (arguments : List String) : IO UInt32 := do
  return (← ResourceDecl.runTool arguments).toUInt32
