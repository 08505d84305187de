/-!
# Names and paths as bytes

A system takes almost any bytes for the name of a file, so a name need not be a text. A `RawText` is
the bytes of a name or of a path; a string stands for its bytes in UTF-8.

* `RawText.text?`: the text, if the bytes are one.
* `RawText.display`: the text that is shown, whether the bytes are one or not.
-/

namespace ResourceDecl

/-- Bytes that may be a text in UTF-8. -/
structure RawText where
  bytes : List UInt8
deriving DecidableEq, Inhabited

/-- Bytes decode to a text when they are the bytes of it. -/
theorem fromUTF8?_eq_some_iff {bytes : ByteArray} {text : String} :
    String.fromUTF8? bytes = some text ↔ bytes = text.toUTF8 := by
  unfold String.fromUTF8?
  split
  · constructor
    · rintro ⟨⟩
      rfl
    · rintro rfl
      rfl
  · rename_i hinvalid
    constructor
    · rintro ⟨⟩
    · rintro rfl
      exact absurd text.isValidUTF8 hinvalid

namespace RawText

/-- The byte between the names of a path. -/
def slash : UInt8 := 0x2f

/-- The byte in front of an extension, and at the start of a hidden name. -/
def dot : UInt8 := 0x2e

/-- The bytes of a text. -/
def ofString (text : String) : RawText :=
  ⟨text.toUTF8.data.toList⟩

instance : Coe String RawText := ⟨ofString⟩

/-- Names are ordered byte by byte. -/
instance : LT RawText := ⟨fun a b => a.bytes < b.bytes⟩

instance : DecidableLT RawText :=
  fun a b => inferInstanceAs (Decidable (a.bytes < b.bytes))

/-- The text, if the bytes are one. -/
def text? (raw : RawText) : Option String :=
  String.fromUTF8? ⟨raw.bytes.toArray⟩

/-- The ranges of the bytes that go on with a character, by its first byte. -/
def followers (first : UInt8) : List (UInt8 × UInt8) :=
  let range : UInt8 × UInt8 := (0x80, 0xbf)
  if first < 0xc2 then []
  else if first < 0xe0 then [range]
  else if first < 0xf0 then
    if first = 0xe0 then [(0xa0, 0xbf), range]
    else if first = 0xed then [(0x80, 0x9f), range]
    else [range, range]
  else if first < 0xf5 then
    if first = 0xf0 then [(0x90, 0xbf), range, range]
    else if first = 0xf4 then [(0x80, 0x8f), range, range]
    else [range, range, range]
  else []

/-- The characters of bytes. Where there is none, a replacement character stands for the bytes up to
the first one that cannot go on with a character. -/
def characters : List UInt8 → List Char
  | [] => []
  | first :: rest =>
    let more := ((followers first).zip rest).takeWhile fun (range, byte) =>
      decide (range.1 ≤ byte) && decide (byte ≤ range.2)
    let shown := match text? ⟨first :: rest.take more.length⟩ with
      | some text => text.toList
      | none => ['\ufffd']
    shown ++ characters (rest.drop more.length)
termination_by bytes => bytes.length
decreasing_by simp only [List.length_cons, List.length_drop]; omega

/-- The text that is shown. -/
def display (raw : RawText) : String :=
  raw.text?.getD (String.ofList (characters raw.bytes))

theorem text?_eq_some_iff {raw : RawText} {text : String} :
    raw.text? = some text ↔ raw = ofString text := by
  rw [text?, fromUTF8?_eq_some_iff]
  constructor
  · intro h
    rw [ofString, ← h]
  · rintro rfl
    rfl

theorem text?_ofString (text : String) : (ofString text).text? = some text :=
  text?_eq_some_iff.mpr rfl

@[simp] theorem display_ofString (text : String) : (ofString text).display = text := by
  rw [display, text?_ofString, Option.getD_some]

example : display ⟨[0x2e, 0x63, 0xe2, 0x82, 0x2f, 0xe9]⟩ = ".c\ufffd/\ufffd" := by decide +kernel

end RawText

end ResourceDecl
