import ResourceDecl.Token.Basic
import ResourceDecl.Token.Reading

/-!
# Strings

A string runs from a quote to the next quote of its line that no backslash escapes. Its content is
kept as it is written: a backslash and the character behind it are checked, not decoded.
-/

namespace ResourceDecl

/-- Read up to the closing quote; `done` holds the content so far, last character first. -/
def readContent (done : List Char) : List Char → Reading (List Char)
  | [] => (.error .unterminatedString, [])
  | '\n' :: rest => (.error .unterminatedString, '\n' :: rest)
  | '"' :: rest => (.ok done.reverse, rest)
  | ['\\'] => (.error .malformedEscape, [])
  | '\\' :: c :: rest =>
    if c = '\n' ∨ c = '\r' then (.error .malformedEscape, c :: rest)
    else readContent (c :: '\\' :: done) rest
  | c :: rest => readContent (c :: done) rest

/-- Read a string whose opening quote was read. -/
def readString (rest : List Char) : Reading TokenKind :=
  (readContent [] rest).map TokenKind.ofContent

theorem length_readContent_le (done rest : List Char) :
    (readContent done rest).2.length ≤ rest.length := by
  fun_induction readContent done rest <;> simp_all <;> omega

theorem length_readString_le (rest : List Char) : (readString rest).2.length ≤ rest.length :=
  length_readContent_le [] rest

end ResourceDecl
