import ResourceDecl.CommandLine.Outcome
import ResourceDecl.Document
import ResourceDecl.Files.Access
import ResourceDecl.Statement.Json
import ResourceDecl.Statement.Printer
import ResourceDecl.Token.Listing

/-!
# Commands that read one source

`check` reports problems, `lex` lists tokens, `parse` lists declarations. Each is a function of
the source that was read, or of the reason why there is none.
-/

namespace ResourceDecl

open Text

/-- Go on with a source, or fail because there is none. -/
def withSource (source : Except SourceError String) (use : String → Outcome) : Outcome :=
  match source with
  | .ok source => use source
  | .error reason => .failed (.general reason.message)

/-- Go on with the declarations of a source, or fail because of its problems. -/
def withProgram (path : RawText) (source : Except SourceError String)
    (use : Program → String) : Outcome :=
  withSource source fun source =>
    match (Document.ofSource source).strict with
    | .ok program => .printed (use program)
    | .error problems => .failed (.invalidSource path problems)

/-- Report the problems of a source. -/
def checkOutcome (path : RawText) (source : Except SourceError String) : Outcome :=
  withProgram path source fun program =>
    "✓ " ++ path.display ++ ": " ++ toString program.length ++ " statement(s)\n"

/-- List the tokens of a source. -/
def lexOutcome (path : RawText) (source : Except SourceError String) : Outcome :=
  withSource source fun source =>
    let stream := TokenStream.ofSource source
    { stdout := String.join (stream.tokens.map fun token => token.listed ++ "\n")
      failure :=
        if stream.problems.isEmpty then none
        else some (.invalidSource path stream.problems) }

/-- A declaration with its line number. -/
def numberedText (s : Statement) : String :=
  padLeft 4 (toString s.line) ++ " | " ++ s.text ++ "\n"

/-- List the declarations of a source, as text or as JSON. -/
def parseOutcome (path : RawText) (json : Bool) (source : Except SourceError String) : Outcome :=
  withProgram path source fun program =>
    if json then (Program.json program).text .pretty ++ "\n"
    else String.join (program.map numberedText)

end ResourceDecl
