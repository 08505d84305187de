import ResourceDecl.Sorting
import ResourceDecl.Statement.Reader
import ResourceDecl.Token.Stream

/-!
# Documents

A `Document` is what a source declares, what is wrong with it, and its comments. Declarations are
read one behind the other. Where one cannot be read, the problem is noted and the rest of its line
is passed over. A line with an unreadable token is passed over in silence, since its problem is
known already.

* `Document.ofTokens`: the document of any list of tokens.
* `Document.ofSource`: the document of a source, its lexical problems included.
* `Document.strict`: the declarations, unless anything is wrong.
-/

namespace ResourceDecl

open Text

/-- Declarations, problems and comments of a source. -/
structure Document where
  program : Program
  problems : List Problem
  comments : List Comment
deriving DecidableEq, Inhabited

/-- The problem stands in front of another one or at the same place. -/
def startsFirst (p q : Problem) : Bool :=
  decide (p.span.start ≤ q.span.start)

namespace Document

/-- A declaration in front of those of a document. -/
def declare (s : Statement) (document : Document) : Document :=
  { document with program := s :: document.program }

/-- A problem in front of those of a document. -/
def refuse (problem : Problem) (document : Document) : Document :=
  { document with problems := problem :: document.problems }

/-- The document of the tokens ahead. -/
def ofCursor (cursor : Cursor) : Document :=
  let here := cursor.skipNewlines
  if _hend : here.atEnd then ⟨[], [], []⟩
  else if here.lineHasFault then ofCursor here.synchronize
  else
    match _hread : readStatement here with
    | .ok s later => (ofCursor later).declare s
    | .error problem later => (ofCursor later.synchronize).refuse problem
termination_by cursor.ahead.length
decreasing_by
  all_goals
    have hkind : here.peek.kind ≠ .done := bne_iff_ne.mp (by simpa [Cursor.atEnd] using _hend)
    refine Nat.lt_of_lt_of_le ?_ cursor.length_skipNewlines_le
  · exact Cursor.length_synchronize_lt hkind
  · exact length_lt_of_readStatement_ok hkind _hread
  · exact length_lt_of_readStatement_error hkind _hread

/-- The document of a list of tokens. -/
def ofTokens (tokens : List Token) : Document :=
  ofCursor (.start tokens)

/-- The document of a source, its problems in the order of their places. -/
def ofSource (source : String) : Document :=
  let stream := TokenStream.ofSource source
  let document := ofTokens stream.tokens
  { program := document.program
    problems := sortBy startsFirst (stream.problems ++ document.problems)
    comments := stream.comments }

/-- The declarations, unless there is a problem. -/
def strict (document : Document) : Except (List Problem) Program :=
  if document.problems.isEmpty then .ok document.program else .error document.problems

end Document

end ResourceDecl
