import ResourceDecl.Language.Keyword
import ResourceDecl.Language.Vocabulary

/-!
# The language reference

A page in Markdown with one table of keywords, one list of sample declarations and one table of
vocabularies, written from the tables that the tool itself uses.
-/

namespace ResourceDecl.Reference

/-- Text in code style. -/
def code (text : String) : String :=
  "`" ++ text ++ "`"

/-- One row of a table. -/
def row (cells : List String) : String :=
  "| " ++ String.intercalate " | " cells ++ " |\n"

/-- A table: its head, a rule as wide, its rows. -/
def table (head : List String) (rows : List (List String)) : String :=
  row head ++ "|" ++ String.join (head.map fun _ => "---|") ++ "\n" ++ String.join (rows.map row)

/-- A heading with an empty line behind it. -/
def heading (text : String) : String :=
  text ++ "\n\n"

/-- The table of keywords. -/
def keywordTable : String :=
  table ["Keyword", "Category", "Since", "Description"]
    (Keyword.all.map fun k => [code k.spelling, k.category.label, k.since, k.description])

/-- One sample with its note. -/
def sample (ex : Example) : String :=
  "- " ++ code ex.code ++ (match ex.note with
    | some note => " (" ++ note ++ ")"
    | none => "") ++ "\n"

/-- The list of samples. -/
def samples : String :=
  String.join ((Keyword.all.flatMap Keyword.examples).map sample)

/-- The table of vocabularies. -/
def vocabularyTable : String :=
  table ["Vocabulary", "Spellings", "Description"]
    (Vocabulary.all.map fun v =>
      [v.name, String.intercalate " " (v.spellings.map code), v.description])

/-- The whole page. -/
def page : String :=
  heading "# rescomp syntax reference" ++
  heading ("> Generated file. Regenerate with " ++
    code "cargo run -p rescomp_core --bin generate_syntax_reference" ++ ".") ++
  heading "## Statement keywords" ++ keywordTable ++ "\n" ++
  heading "### Examples" ++ samples ++ "\n" ++
  heading "## Closed vocabularies" ++ vocabularyTable

end ResourceDecl.Reference
