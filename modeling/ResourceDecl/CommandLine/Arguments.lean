import ResourceDecl.CommandLine.Reformat
import ResourceDecl.Text.Similarity

/-!
# Arguments

The arguments of the tool: a command with its own flags and one path, or a bare path that is to be
checked. Options start with a hyphen, `--` ends them, and a lone hyphen is a path. Arguments are
read from left to right and the first mistake counts; what is missing is found at the end.
-/

namespace ResourceDecl

open Text

/-- A command with what it is asked for. -/
inductive Request
  | check (path : RawText)
  | lex (path : RawText)
  | parse (path : RawText) (json : Bool)
  | reformat (path : RawText) (options : ReformatOptions)
deriving DecidableEq, Inhabited

/-- A command, and a bare path in front of it. -/
structure Invocation where
  request : Option Request
  file : Option RawText
deriving DecidableEq, Inhabited

/-- Why arguments are not taken; help and version count as reasons. -/
inductive UsageError
  | unknownArgument
  | missingArgument
  | repeatedFlag
  | unwantedValue
  | emptyPath
  | invalidCommand
  | helpWanted
  | versionWanted
deriving DecidableEq, Inhabited

/-- The name under which a mistake is reported. -/
def UsageError.name : UsageError → String
  | unknownArgument => "UnknownArgument"
  | missingArgument => "MissingRequiredArgument"
  | repeatedFlag => "ArgumentConflict"
  | unwantedValue => "TooManyValues"
  | emptyPath => "InvalidValue"
  | invalidCommand => "InvalidSubcommand"
  | helpWanted => "DisplayHelp"
  | versionWanted => "DisplayVersion"

/-- The exit status of a run that takes no command. -/
def UsageError.exitStatus : UsageError → Nat
  | helpWanted | versionWanted => 0
  | _ => 2

/-- How the tool is called. -/
def usage : String :=
  "usage: rescomp [FILE]\n" ++
  "       rescomp check FILE\n" ++
  "       rescomp lex FILE\n" ++
  "       rescomp parse [--json] FILE\n" ++
  "       rescomp fmt [--check] [--diff] [--align] [PATH]\n"

/-! ## Words -/

/-- What an argument is by its hyphens. -/
inductive ArgumentWord
  | endOfOptions
  | long (name : String) (value : Option String)
  | short (letter : Char)
  | plain (text : String)
deriving DecidableEq, Inhabited

/-- What an argument is by its hyphens. -/
def ArgumentWord.ofString (argument : String) : ArgumentWord :=
  match argument.toList with
  | ['-', '-'] => .endOfOptions
  | '-' :: '-' :: option =>
    let name := String.ofList (option.takeWhile (· != '='))
    match option.dropWhile (· != '=') with
    | _ :: value => .long name (some (String.ofList value))
    | [] => .long name none
  | '-' :: letter :: _ => .short letter
  | _ => .plain argument

/-! ## Flags and one path -/

/-- The path and the flags that were given so far. -/
structure Given where
  path : Option String := none
  flags : List String := []
deriving DecidableEq, Inhabited

namespace Given

/-- A path may not be empty. -/
def confirm (given : Given) : Except UsageError Unit :=
  if given.path = some "" then .error .emptyPath else .ok ()

/-- Take a path; there is room for one. -/
def addPath (given : Given) (path : String) : Except UsageError Given :=
  match given.path with
  | none => .ok { given with path := some path }
  | some _ => .error .unknownArgument

/-- Take a flag by its name; help is a flag of every command. -/
def addFlag (known : List String) (given : Given) (name : String) (value : Option String) :
    Except UsageError Given := do
  if name ≠ "help" ∧ name ∉ known then .error .unknownArgument
  else if value.isSome then .error .unwantedValue
  else
    given.confirm
    if name = "help" then .error .helpWanted
    else if name = "version" then .error .versionWanted
    else if name ∈ given.flags then .error .repeatedFlag
    else return { given with flags := name :: given.flags }

/-- Take a flag by its letter. -/
def addLetter (known : List String) (given : Given) (letter : Char) : Except UsageError Given :=
  match letter with
  | 'h' => given.addFlag known "help" none
  | 'V' => given.addFlag known "version" none
  | _ => .error .unknownArgument

/-- Take the arguments of a command with the given flags. -/
def ofArguments (known : List String) (given : Given) : List String → Except UsageError Given
  | [] => do
    given.confirm
    return given
  | argument :: arguments => do
    match ArgumentWord.ofString argument with
    | .endOfOptions =>
      let given ← arguments.foldlM addPath given
      given.confirm
      return given
    | .long name value => ofArguments known (← given.addFlag known name value) arguments
    | .short letter => ofArguments known (← given.addLetter known letter) arguments
    | .plain path => ofArguments known (← given.addPath path) arguments

/-- The path that a command cannot do without. -/
def requiredPath (given : Given) : Except UsageError String :=
  match given.path with
  | some path => .ok path
  | none => .error .missingArgument

end Given

/-! ## Commands -/

/-- The commands of the tool. -/
inductive CommandName
  | check
  | lex
  | parse
  | reformat
  | help
deriving DecidableEq, Inhabited

namespace CommandName

/-- All commands. -/
def all : List CommandName := [check, lex, parse, reformat, help]

/-- How a command is written. -/
def spelling : CommandName → String
  | check => "check"
  | lex => "lex"
  | parse => "parse"
  | reformat => "fmt"
  | help => "help"

/-- The command with this spelling. -/
def ofSpelling? (word : String) : Option CommandName :=
  all.find? fun command => command.spelling == word

end CommandName

/-- Help takes the name of a command, and commands have none below them. -/
def helpRequest : List String → UsageError
  | [] => .helpWanted
  | [word] => if (CommandName.ofSpelling? word).isSome then .helpWanted else .invalidCommand
  | _ => .invalidCommand

/-- The request that a command makes of its arguments. -/
def Request.ofArguments (command : CommandName) (arguments : List String) :
    Except UsageError Request := do
  match command with
  | .check => return .check (← (← Given.ofArguments [] {} arguments).requiredPath)
  | .lex => return .lex (← (← Given.ofArguments [] {} arguments).requiredPath)
  | .parse =>
    let given ← Given.ofArguments ["json"] {} arguments
    return .parse (← given.requiredPath) (given.flags.contains "json")
  | .reformat =>
    let given ← Given.ofArguments ["check", "diff", "align"] {} arguments
    let options : ReformatOptions :=
      { check := given.flags.contains "check"
        diff := given.flags.contains "diff"
        align := given.flags.contains "align" }
    return .reformat (given.path.getD ".") options
  | .help => .error (helpRequest arguments)

/-- A second bare path is a mistyped command if it looks like one. -/
def surplusPath (word : String) : UsageError :=
  if CommandName.all.any fun command => similar word command.spelling then .invalidCommand
  else .unknownArgument

namespace Invocation

/-- Take a bare path in front of a command. -/
def addFile (given : Given) (path : String) : Except UsageError Given :=
  if given.path.isSome then .error (surplusPath path) else given.addPath path

/-- Take bare paths that no command can follow. -/
def ofPaths (given : Given) : List String → Except UsageError Given
  | [] => .ok given
  | path :: paths => do
    if given.path.isSome ∧ (CommandName.ofSpelling? path).isSome then .error .unknownArgument
    else ofPaths (← addFile given path) paths

/-- Take the arguments of the tool; `given` holds the bare path so far. -/
def ofGiven (given : Given) : List String → Except UsageError Invocation
  | [] => do
    given.confirm
    return ⟨none, given.path.map .ofString⟩
  | argument :: arguments => do
    match CommandName.ofSpelling? argument with
    | some command =>
      let request ← Request.ofArguments command arguments
      given.confirm
      return ⟨some request, given.path.map .ofString⟩
    | none =>
      match ArgumentWord.ofString argument with
      | .endOfOptions =>
        let given ← ofPaths given arguments
        given.confirm
        return ⟨none, given.path.map .ofString⟩
      | .long name value => ofGiven (← given.addFlag ["version"] name value) arguments
      | .short letter => ofGiven (← given.addLetter ["version"] letter) arguments
      | .plain path => ofGiven (← addFile given path) arguments

/-- Take the arguments of the tool. -/
def ofArguments (arguments : List String) : Except UsageError Invocation :=
  ofGiven {} arguments

end Invocation

end ResourceDecl
