import ResourceDecl.Problem
import ResourceDecl.Text.Lines
import ResourceDecl.Token.Lexeme

/-!
# Token streams

A source is read from its first character to its last. `scanText` counts bytes, lines and columns
as it goes on, and collects tokens, comments and what cannot be read. A line feed is a token if its
line carries one already; blank lines and lines with a comment alone leave nothing behind. The rest
of a line behind an unreadable lexeme is covered by one token that says so.
-/

namespace ResourceDecl

open Text

/-- The tokens of a source, its comments and its lexical problems. -/
structure TokenStream where
  tokens : List Token
  problems : List Problem
  comments : List Comment
deriving DecidableEq, Inhabited

/-- How far a scanner has come: the bytes behind it, its line and column, and whether the line
carries a token already. -/
structure Scanner where
  offset : Nat
  line : Nat
  column : Nat
  seen : Bool
deriving DecidableEq, Inhabited

namespace Scanner

/-- In front of a source. -/
def first : Scanner := ⟨0, 1, 1, false⟩

/-- Behind a part of the line. -/
def behind (scanner : Scanner) (text : List Char) : Scanner :=
  { scanner with
    offset := scanner.offset + byteLength text
    column := scanner.column + text.length }

/-- Behind a token of the line. -/
def behindToken (scanner : Scanner) (text : List Char) : Scanner :=
  { scanner.behind text with seen := true }

/-- Behind the line feed. -/
def nextLine (scanner : Scanner) : Scanner :=
  ⟨scanner.offset + 1, scanner.line + 1, 1, false⟩

/-- The token that is written like this. -/
def token (scanner : Scanner) (kind : TokenKind) (text : List Char) : Token :=
  ⟨kind, ⟨scanner.offset, scanner.offset + byteLength text⟩, scanner.line, scanner.column⟩

/-- The comment that takes the rest of the line. -/
def comment (scanner : Scanner) (line : List Char) : Comment :=
  let text := trimEnd line
  ⟨String.ofList text, ⟨scanner.offset, scanner.offset + byteLength text⟩, scanner.line,
    scanner.seen⟩

end Scanner

/-- The characters that start a comment. -/
def opensComment (first : Char) (rest : List Char) : Bool :=
  first == '#' || (first == '/' && rest.head? == some '/')

/-- The part of a text in front of its given end. -/
def consumed (text rest : List Char) : List Char :=
  text.take (text.length - rest.length)

/-- The text in front of the next line feed. -/
def lineOf (rest : List Char) : List Char :=
  rest.takeWhile (· != '\n')

/-- The text from the next line feed on. -/
def skipLine (rest : List Char) : List Char :=
  rest.dropWhile (· != '\n')

theorem length_skipLine_le (rest : List Char) : (skipLine rest).length ≤ rest.length :=
  length_dropWhile_le _ _

/-- Scan the rest of a source. -/
def scanText (scanner : Scanner) (rest : List Char) : TokenStream :=
  let here := scanner.behind (rest.takeWhile isInlineBlank)
  match _hs : skipBlanks rest with
  | [] => ⟨[here.token .done []], [], []⟩
  | first :: tail =>
    if first = '\n' then
      let after := scanText here.nextLine tail
      if here.seen then { after with tokens := here.token .newline ['\n'] :: after.tokens }
      else after
    else if opensComment first tail then
      let line := first :: lineOf tail
      let after := scanText (here.behind line) (skipLine tail)
      { after with comments := here.comment line :: after.comments }
    else
      match _hr : readLexeme first tail with
      | (.ok kind, next) =>
        let text := consumed (first :: tail) next
        let after := scanText (here.behindToken text) next
        { after with tokens := here.token kind text :: after.tokens }
      | (.error fault, next) =>
        -- The fault takes the line with it, but its message quotes what was read.
        let text := consumed (first :: tail) (skipLine next)
        let offending := String.ofList (consumed (first :: tail) next)
        let token := here.token .unreadable text
        let after := scanText (here.behindToken text) (skipLine next)
        { after with
          tokens := token :: after.tokens
          problems := token.problem (.lexical fault offending) :: after.problems }
termination_by rest.length
decreasing_by
  all_goals
    have hs := length_skipBlanks_le rest
    rw [_hs, List.length_cons] at hs
  · exact hs
  · exact Nat.lt_of_le_of_lt (length_skipLine_le tail) hs
  · have hr := length_readLexeme_le first tail
    rw [_hr] at hr
    exact Nat.lt_of_le_of_lt hr hs
  · have hr := length_readLexeme_le first tail
    rw [_hr] at hr
    exact Nat.lt_of_le_of_lt (Nat.le_trans (length_skipLine_le next) hr) hs

/-- The steps of the scanner, without the equalities that make it end. -/
theorem scanText_eq (scanner : Scanner) (rest : List Char) :
    scanText scanner rest =
      let here := scanner.behind (rest.takeWhile isInlineBlank)
      match skipBlanks rest with
      | [] => ⟨[here.token .done []], [], []⟩
      | first :: tail =>
        if first = '\n' then
          let after := scanText here.nextLine tail
          if here.seen then { after with tokens := here.token .newline ['\n'] :: after.tokens }
          else after
        else if opensComment first tail then
          let line := first :: lineOf tail
          let after := scanText (here.behind line) (skipLine tail)
          { after with comments := here.comment line :: after.comments }
        else
          match readLexeme first tail with
          | (.ok kind, next) =>
            let text := consumed (first :: tail) next
            let after := scanText (here.behindToken text) next
            { after with tokens := here.token kind text :: after.tokens }
          | (.error fault, next) =>
            let text := consumed (first :: tail) (skipLine next)
            let offending := String.ofList (consumed (first :: tail) next)
            let token := here.token .unreadable text
            let after := scanText (here.behindToken text) (skipLine next)
            { after with
              tokens := token :: after.tokens
              problems := token.problem (.lexical fault offending) :: after.problems } := by
  rw [scanText]
  split <;> rename_i heq <;> simp only [heq]
  split
  · rfl
  · split
    · rfl
    · split <;> rename_i heq <;> simp only [heq]

namespace TokenStream

/-- Read a source. -/
def ofSource (source : String) : TokenStream :=
  scanText .first source.toList

/-- The tokens, unless the source has a lexical problem. -/
def strict (stream : TokenStream) : Except (List Problem) (List Token) :=
  if stream.problems.isEmpty then .ok stream.tokens else .error stream.problems

/-- What is known when a token is delivered: the numbers of problems and comments up to it. -/
structure Step where
  token : Option Token
  problems : Nat
  comments : Nat
deriving DecidableEq, Inhabited

/-- What is known when a token is delivered. -/
def stepAt (stream : TokenStream) (token : Token) : Step where
  token := some token
  problems := stream.problems.countP fun p => decide (p.span.start ≤ token.span.start)
  comments := stream.comments.countP fun c => decide (c.span.start < token.span.start)

/-- What is known when the tokens have run out. -/
def finalStep (stream : TokenStream) : Step :=
  ⟨none, stream.problems.length, stream.comments.length⟩

/-- The stream as it is delivered token by token. -/
def steps (stream : TokenStream) : List Step :=
  stream.tokens.map stream.stepAt

end TokenStream

end ResourceDecl
