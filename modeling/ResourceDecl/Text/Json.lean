import ResourceDecl.Text.Lines

/-!
# JSON text

JSON values and their two layouts: one without any blanks, and one with every item on a line of
its own, two blanks deeper than the value around it. Members keep their order. A string escapes
quotes, backslashes and control characters, and nothing else.
-/

namespace ResourceDecl.Text

/-- A JSON value; numbers are integers. -/
inductive Json
  | null
  | number (value : Int)
  | string (text : String)
  | array (items : List Json)
  | object (members : List (String × Json))

namespace Json

/-! ## Strings -/

/-- The escape of a control character that has no letter of its own. -/
def controlEscape (c : Char) : List Char :=
  ['\\', 'u', '0', '0', Nat.digitChar (c.toNat / 16), Nat.digitChar (c.toNat % 16)]

/-- A character as it stands in a string. -/
def escapeChar (c : Char) : List Char :=
  if c = '"' then ['\\', '"']
  else if c = '\\' then ['\\', '\\']
  else if c = '\x08' then ['\\', 'b']
  else if c = '\x0c' then ['\\', 'f']
  else if c = '\n' then ['\\', 'n']
  else if c = '\r' then ['\\', 'r']
  else if c = '\t' then ['\\', 't']
  else if c.toNat < 0x20 then controlEscape c
  else [c]

/-- A string in quotes. -/
def stringText (text : String) : String :=
  "\"" ++ String.ofList (text.toList.flatMap escapeChar) ++ "\""

/-! ## Layouts -/

/-- Where blanks stand. -/
inductive Style
  | compact
  | pretty
deriving DecidableEq, Inhabited

namespace Style

/-- What stands in front of an item at the given depth. -/
def lineBreak : Style → Nat → String
  | compact, _ => ""
  | pretty, depth => "\n" ++ spaces (2 * depth)

/-- What stands between a key and its value. -/
def colon : Style → String
  | compact => ":"
  | pretty => ": "

end Style

mutual

/-- The text of a value at the given depth. -/
def textAt (style : Style) (depth : Nat) : Json → String
  | null => "null"
  | number value => toString value
  | string text => stringText text
  | array [] => "[]"
  | array (item :: items) =>
    "[" ++ itemsText style (depth + 1) (item :: items) ++ style.lineBreak depth ++ "]"
  | object [] => "\x7b\x7d"
  | object (member :: members) =>
    "\x7b" ++ membersText style (depth + 1) (member :: members) ++ style.lineBreak depth ++ "\x7d"

/-- Items with commas between them. -/
def itemsText (style : Style) (depth : Nat) : List Json → String
  | [] => ""
  | [item] => style.lineBreak depth ++ item.textAt style depth
  | item :: items =>
    style.lineBreak depth ++ item.textAt style depth ++ "," ++ itemsText style depth items

/-- Members with commas between them. -/
def membersText (style : Style) (depth : Nat) : List (String × Json) → String
  | [] => ""
  | [(key, value)] =>
    style.lineBreak depth ++ stringText key ++ style.colon ++ value.textAt style depth
  | (key, value) :: members =>
    style.lineBreak depth ++ stringText key ++ style.colon ++ value.textAt style depth ++ "," ++
      membersText style depth members

end

/-- The text of a value. -/
def text (style : Style) (value : Json) : String :=
  value.textAt style 0

end Json

end ResourceDecl.Text
