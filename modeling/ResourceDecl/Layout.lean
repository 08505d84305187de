import ResourceDecl.Document
import ResourceDecl.Statement.Printer
import ResourceDecl.Text.LineDiff

/-!
# Layout

A formatted source is a list of lines: printed declarations, comments, and a blank line wherever
the group of the declarations changes. A comment returns to its place by its line number: behind
the declaration of its own line, else in front of the next declaration, else at the end.

* `layoutLines`: the lines of a program with its comments.
* `LayoutConfig.format`: the text of the lines.
* `format`, `isFormatted?`, `formatDiff`: the same for a source; one with a problem is refused.
-/

namespace ResourceDecl

open Text

/-- Choices for formatted sources. -/
structure LayoutConfig where
  /-- Blanks between fields; one is written even for zero. -/
  fieldSeparator : Nat := 1
  /-- Start the first fields of all declarations in one column. -/
  alignKeywords : Bool := false
  /-- Put a blank line where the group of the declarations changes. -/
  separateGroups : Bool := true
  /-- End the last line with a line feed. -/
  finalNewline : Bool := true
deriving DecidableEq, Inhabited

/-- Choose the number of blanks between fields, at least one. -/
def LayoutConfig.withFieldSeparator (config : LayoutConfig) (width : Nat) : LayoutConfig :=
  { config with fieldSeparator := max width 1 }

/-! ## Lines -/

/-- A line of a formatted source. -/
inductive LayoutLine
  | blank
  | comment (comment : Comment)
  | statement (statement : Statement) (trailing : Option Comment)
deriving DecidableEq, Inhabited

/-- A blank line where the group changes. -/
def groupBreak (previous : Option Category) (s : Statement) : List LayoutLine :=
  match previous with
  | some category => if category = s.keyword.category then [] else [.blank]
  | none => []

/-- The lines of a program and its comments; `previous` is the group of the declaration before. -/
def layoutLines (separateGroups : Bool) (previous : Option Category) :
    Program → List Comment → List LayoutLine
  | [], comments => comments.map .comment
  | s :: program, comments =>
    let gap := if separateGroups then groupBreak previous s else []
    let above := comments.takeWhile fun c => decide (c.line < s.line)
    let pending := comments.dropWhile fun c => decide (c.line < s.line)
    let continued := layoutLines separateGroups (some s.keyword.category) program
    gap ++ above.map .comment ++
      match pending with
      | c :: later =>
        if c.line = s.line then .statement s (some c) :: continued later
        else .statement s none :: continued (c :: later)
      | [] => .statement s none :: continued []

/-- The text of a line with its line feed. -/
def LayoutLine.text (options : PrintOptions) : LayoutLine → String
  | blank => "\n"
  | comment c => c.text ++ "\n"
  | statement s (some c) => s.print options ++ " " ++ c.text ++ "\n"
  | statement s none => s.print options ++ "\n"

/-! ## Formatted text -/

/-- The width of the longest keyword that has fields behind it. -/
def keywordWidth (program : Program) : Nat :=
  ((program.filter fun s => !s.fields.isEmpty).map fun s => s.keyword.spelling.length).foldl max 0

namespace LayoutConfig

/-- How the declarations of a program are printed. -/
def printOptions (config : LayoutConfig) (program : Program) : PrintOptions where
  fieldSeparator := config.fieldSeparator
  keywordWidth := if config.alignKeywords then keywordWidth program else 0

/-- The lines of a program and its comments, every one ended by a line feed. -/
def lines (config : LayoutConfig) (program : Program) (comments : List Comment) : String :=
  let options := config.printOptions program
  String.join ((layoutLines config.separateGroups none program comments).map fun line =>
    line.text options)

/-- The formatted text of a program and its comments. -/
def format (config : LayoutConfig) (program : Program) (comments : List Comment) : String :=
  let text := config.lines program comments
  if config.finalNewline then text else String.ofList text.toList.dropLast

end LayoutConfig

/-! ## Formatted sources -/

/-- What is said of a source that is not formatted because of its problems. -/
def refusal (problems : List Problem) : String :=
  "source has " ++ toString problems.length ++ " error(s); fix them before formatting"

/-- The formatted text of a document, or its problems. -/
def Document.format (config : LayoutConfig) (document : Document) :
    Except (List Problem) String :=
  if document.problems.isEmpty then .ok (config.format document.program document.comments)
  else .error document.problems

/-- The formatted text of a source, or its problems. -/
def format (config : LayoutConfig) (source : String) : Except (List Problem) String :=
  (Document.ofSource source).format config

/-- The source is its own formatted text. -/
def isFormatted? (source : String) : Except (List Problem) Bool :=
  (format {} source).map fun formatted => source == formatted

/-- The diff from a source to its formatted text. -/
def formatDiff (source : String) : Except (List Problem) (Option String) :=
  (format {} source).map fun formatted => lineDiff source formatted

end ResourceDecl
