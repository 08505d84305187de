/-!
# Lines and byte lengths

Offsets into a text count bytes of its UTF-8 form, columns count characters. A text is cut into
lines in two ways:

* `pieces` cuts at every line feed and loses nothing but the line feeds, so the last piece is what
  stands after the last line feed, possibly nothing;
* `contents` lists the lines as a reader sees them: without their line endings (a line feed, or a
  carriage return and a line feed) and without an empty last piece.
-/

namespace ResourceDecl.Text

/-- Number of bytes of the UTF-8 form. -/
def byteLength (text : List Char) : Nat :=
  text.foldr (fun c n => c.utf8Size + n) 0

@[simp] theorem byteLength_nil : byteLength [] = 0 := rfl

@[simp] theorem byteLength_cons (c : Char) (text : List Char) :
    byteLength (c :: text) = c.utf8Size + byteLength text := rfl

@[simp] theorem byteLength_append (a b : List Char) :
    byteLength (a ++ b) = byteLength a + byteLength b := by
  induction a with
  | nil => simp
  | cons c a ih => rw [List.cons_append, byteLength_cons, ih, byteLength_cons, Nat.add_assoc]

/-- The texts between the line feeds; there is always at least one. -/
def pieces (text : List Char) : List (List Char) :=
  text.splitOn '\n'

/-- Drop one carriage return at the end. -/
def dropReturn (line : List Char) : List Char :=
  if line.getLast? = some '\r' then line.dropLast else line

/-- The lines without their endings; a text that ends in a line feed has no empty last line. -/
def contents (text : List Char) : List (List Char) :=
  let cut := pieces text
  let last := cut.getLastD []
  cut.dropLast.map dropReturn ++ (if last.isEmpty then [] else [last])

/-- Put blanks in front up to the given width. -/
def padLeft (width : Nat) (text : String) : String :=
  String.ofList (List.replicate (width - text.length) ' ') ++ text

/-- Put blanks behind up to the given width. -/
def padRight (width : Nat) (text : String) : String :=
  text ++ String.ofList (List.replicate (width - text.length) ' ')

/-- A run of blanks. -/
def spaces (width : Nat) : String :=
  String.ofList (List.replicate width ' ')

end ResourceDecl.Text
