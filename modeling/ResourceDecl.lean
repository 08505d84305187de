import ResourceDecl.Sorting
import ResourceDecl.Text.Blank
import ResourceDecl.Text.Lines
import ResourceDecl.Text.Span
import ResourceDecl.Text.Decimal
import ResourceDecl.Text.LineDiff
import ResourceDecl.Language.Keyword
import ResourceDecl.Language.Vocabulary
import ResourceDecl.Language.Shape
import ResourceDecl.Language.Reference
import ResourceDecl.Token.Array
import ResourceDecl.Token.Quote
import ResourceDecl.Token.Lexeme
import ResourceDecl.Token.Stream
import ResourceDecl.Problem
import ResourceDecl.Statement.Basic
import ResourceDecl.Statement.Fields
import ResourceDecl.Statement.Reader
import ResourceDecl.Document
import ResourceDecl.Statement.Printer
import ResourceDecl.Layout
import ResourceDecl.Text.Json
import ResourceDecl.Text.Visible
import ResourceDecl.Text.Listed
import ResourceDecl.Token.Listing
import ResourceDecl.Statement.Json
import ResourceDecl.Files.Access
import ResourceDecl.Files.Discovery
import ResourceDecl.Files.Tree
import ResourceDecl.Text.Similarity
import ResourceDecl.CommandLine.Outcome
import ResourceDecl.CommandLine.Inspect
import ResourceDecl.CommandLine.Reformat
import ResourceDecl.CommandLine.Arguments
import ResourceDecl.CommandLine.Run
import ResourceDecl.Main
import ResourceDecl.Proofs.Grammar.Acceptance
import ResourceDecl.Proofs.Grammar.Stall
import ResourceDecl.Proofs.Grammar.Leftover
import ResourceDecl.Proofs.Documents.Reprint
import ResourceDecl.Proofs.Layout.Arrangement
import ResourceDecl.Proofs.Layout.Preservation
import ResourceDecl.Proofs.Layout.NormalForm
import ResourceDecl.Proofs.Layout.Placement
import ResourceDecl.Proofs.Statements.Endings
import ResourceDecl.Proofs.Layout.Blocks
import ResourceDecl.Proofs.Layout.Appearance
import ResourceDecl.Proofs.Documents.Outcomes
import ResourceDecl.Proofs.Places.Relocation
import ResourceDecl.Proofs.Documents.Occurrence
import ResourceDecl.Proofs.Documents.Recovery
import ResourceDecl.Proofs.Documents.Locality
import ResourceDecl.Proofs.Places.Coverage
import ResourceDecl.Proofs.Places.Fields
import ResourceDecl.Proofs.Places.Positions
import ResourceDecl.Proofs.Places.Order
import ResourceDecl.Proofs.Documents.Strictness
import ResourceDecl.Proofs.Documents.Meaning
import ResourceDecl.Proofs.Tokens.Delimited
import ResourceDecl.Proofs.Documents.Respacing
import ResourceDecl.Proofs.Grammar.Completion
import ResourceDecl.Proofs.Documents.Refusals
import ResourceDecl.Proofs.Documents.Integers
import ResourceDecl.Proofs.Documents.Strings
import ResourceDecl.Proofs.Json.Dump
import ResourceDecl.Proofs.Files.Contents
import ResourceDecl.Proofs.Files.Sources
import ResourceDecl.Proofs.CommandLine.Changes
import ResourceDecl.Proofs.CommandLine.Runs
import ResourceDecl.Proofs.CommandLine.Reformatting
import ResourceDecl.Proofs.CommandLine.Convergence
import ResourceDecl.Proofs.CommandLine.ExitStatus
import ResourceDecl.Proofs.Diff.Determination
import ResourceDecl.Proofs.Diff.Changes
import ResourceDecl.Proofs.CommandLine.Totals
import ResourceDecl.Proofs.Files.Paths
import ResourceDecl.Proofs.CommandLine.Discovery
