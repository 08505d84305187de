import ResourceDecl.Text.Visible

/-!
# Strings in listings

The form in which token listings show a string: in quotes, with the usual escapes for quotes,
backslashes and white space, and the code point in hexadecimal for every other character that is
not visible.
-/

namespace ResourceDecl.Text

/-- The code point of a character in braces. -/
def codePoint (c : Char) : List Char :=
  ['\\', 'u', '\x7b'] ++ Nat.toDigits 16 c.toNat ++ ['\x7d']

/-- A character as a listing shows it. -/
def listedChar (c : Char) : List Char :=
  if c = '\x00' then ['\\', '0']
  else if c = '\t' then ['\\', 't']
  else if c = '\r' then ['\\', 'r']
  else if c = '\n' then ['\\', 'n']
  else if c = '\\' then ['\\', '\\']
  else if c = '"' then ['\\', '"']
  else if isVisible c then [c]
  else codePoint c

/-- A string as a listing shows it. -/
def listed (text : String) : String :=
  "\"" ++ String.ofList (text.toList.flatMap listedChar) ++ "\""

/-- A list as a listing shows it. -/
def listedList (items : List String) : String :=
  "[" ++ String.intercalate ", " items ++ "]"

/-- A record as a listing shows it. -/
def listedRecord (name : String) (fields : List (String × String)) : String :=
  name ++ " \x7b " ++ String.intercalate ", " (fields.map fun f => f.1 ++ ": " ++ f.2) ++ " \x7d"

end ResourceDecl.Text
