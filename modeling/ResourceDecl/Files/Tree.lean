import ResourceDecl.Files.Access

/-!
# File trees

A `FileTree` is a file system as a value: what stands at each place below its root, and the working
directory. Paths are resolved name by name as a POSIX system does it, from the root or from the
working directory: links are followed wherever they stand, at most forty of them, and names are
looked up only in directories that permit it. A file may have further names (`FileEntry.hardLink`).

* `FileTree.locate`: the place that a path leads to.
* `FileTree.openFile`: the file that a path leads to.
* `FileTree.access`: the operations of the commands on a tree.
-/

namespace ResourceDecl

open RawText

/-- What may be done with a file or a directory. -/
structure FileMode where
  /-- The file may be read, the names in the directory may be listed. -/
  readable : Bool := true
  writable : Bool := true
  /-- Names may be looked up in the directory. -/
  searchable : Bool := true
deriving DecidableEq, Inhabited

/-- The names that lead from the root to an entry. -/
abbrev Place := List RawText

/-- What stands at a place. -/
inductive FileEntry
  | file (content : ByteArray) (mode : FileMode := {})
  | directory (mode : FileMode := {})
  | link (target : RawText)
  /-- A further name of the file at a place. -/
  | hardLink (place : Place)

/-- Change the content of a file. -/
def FileEntry.mapContent (change : ByteArray → ByteArray) : FileEntry → FileEntry
  | file content mode => file (change content) mode
  | entry => entry

/-- The entries below the root, each with its place, and the working directory. -/
structure FileTree where
  entries : List (Place × FileEntry)
  workingDirectory : Place := []

/-- Number of links that one path may follow. -/
def maxLinks : Nat := 40

/-- Number of bytes that a path may have. -/
def maxPathBytes : Nat := 4095

/-- Number of bytes that a name may have. -/
def maxNameBytes : Nat := 255

/-- The names of a path; a path that ends in a slash leads to a directory. -/
def pathNames (path : RawText) : List RawText :=
  let parts := path.bytes.splitOn slash
  let names := (parts.filter fun part => !part.isEmpty).map RawText.mk
  if parts.getLast? = some [] then names ++ [ofString "."] else names

namespace Place

/-- Where a path starts: at the root if a slash opens it. -/
def start (here : Place) (path : RawText) : Place :=
  if path.bytes.head? = some slash then [] else here

/-- The directory that holds a place; nothing holds the root. -/
def parent (place : Place) : Place :=
  place.dropLast

end Place

namespace FileTree

/-- What stands at a place. -/
def find? (tree : FileTree) (place : Place) : Option FileEntry :=
  if place = [] then some (.directory {})
  else (tree.entries.find? fun e => e.1 == place).map Prod.snd

/-- What may be done with the directory at a place; none if there is no directory. -/
def directoryMode? (tree : FileTree) (place : Place) : Option FileMode :=
  match tree.find? place with
  | some (.directory mode) => some mode
  | _ => none

/-- Where a name leads from a directory. -/
inductive Turn
  | place (place : Place)
  | link (target : RawText)

/-- Where the entry at a place leads. -/
def enter (tree : FileTree) (place : Place) : Except AccessError Turn :=
  match tree.find? place with
  | none => .error .notFound
  | some (.link target) => .ok (.link target)
  | some (.hardLink first) => .ok (.place first)
  | some _ => .ok (.place place)

/-- Look up a name in the directory at a place. -/
def lookup (tree : FileTree) (here : Place) (name : RawText) : Except AccessError Turn :=
  match tree.directoryMode? here with
  | none => .error .notDirectory
  | some mode =>
    if !mode.searchable then .error .permissionDenied
    else if name.bytes.length > maxNameBytes then .error .nameTooLong
    else if name = "." then .ok (.place here)
    else if name = ".." then .ok (.place here.parent)
    else tree.enter (here ++ [name])

/-- Follow names from a place up to the first link; `onLink` goes on with the names of its target
and the names that are left. -/
def walk (tree : FileTree) (onLink : Place → List RawText → Except AccessError Place)
    (here : Place) : List RawText → Except AccessError Place
  | [] => .ok here
  | name :: rest => do
    match ← tree.lookup here name with
    | .place next => tree.walk onLink next rest
    | .link target => onLink (here.start target) (pathNames target ++ rest)

/-- Follow names from a place; `links` is the number of links that may still be followed. -/
def follow (tree : FileTree) : Nat → Place → List RawText → Except AccessError Place
  | 0 => tree.walk fun _ _ => .error .tooManyLinks
  | links + 1 => tree.walk (tree.follow links)

/-- The place that a path leads to. -/
def locate (tree : FileTree) (path : RawText) : Except AccessError Place :=
  if path.bytes.contains 0 then .error .zeroByte
  else if path.bytes.isEmpty then .error .notFound
  else if path.bytes.length > maxPathBytes then .error .nameTooLong
  else tree.follow maxLinks (tree.workingDirectory.start path) (pathNames path)

/-- A file that was found: its place, what it holds, and what may be done with it. -/
structure OpenFile where
  place : Place
  content : ByteArray
  mode : FileMode

/-- The file at a place. -/
def fileAt (tree : FileTree) (place : Place) : Except AccessError OpenFile :=
  match tree.find? place with
  | some (.file content mode) => .ok ⟨place, content, mode⟩
  | some (.directory _) => .error .isDirectory
  | _ => .error .notFound

/-- The file that a path leads to. -/
def openFile (tree : FileTree) (path : RawText) : Except AccessError OpenFile := do
  tree.fileAt (← tree.locate path)

/-- The content of the file that a path leads to. -/
def content (tree : FileTree) (path : RawText) : Except AccessError ByteArray := do
  let file ← tree.openFile path
  if file.mode.readable then return file.content else .error .permissionDenied

/-- The path leads to a file. -/
def isFile (tree : FileTree) (path : RawText) : Bool :=
  tree.openFile path matches .ok _

/-- The directory that a path leads to and what may be done with it; none if it leads to no
directory. -/
def directory? (tree : FileTree) (path : RawText) : Option (Place × FileMode) :=
  match tree.locate path with
  | .ok place => (tree.directoryMode? place).map fun mode => (place, mode)
  | .error _ => none

/-- The names that a directory holds. -/
def namesIn (tree : FileTree) (directory : Place) : List RawText :=
  tree.entries.filterMap fun e =>
    if e.1.dropLast = directory then e.1.getLast? else none

/-- The names that the directory of a path holds; none if it is no directory or may not be
listed. -/
def names (tree : FileTree) (path : RawText) : List RawText :=
  match tree.directory? path with
  | some (place, mode) => if mode.readable then tree.namesIn place else []
  | none => []

/-- The number of bytes that a path leads to; a directory counts as empty. -/
def size (tree : FileTree) (path : RawText) : Except AccessError Nat :=
  match tree.directory? path with
  | some _ => return 0
  | none => return (← tree.openFile path).content.size

/-- Change the contents of the files, each by its place. -/
def mapContents (tree : FileTree) (change : Place → ByteArray → ByteArray) : FileTree :=
  { tree with entries := tree.entries.map fun e => (e.1, e.2.mapContent (change e.1)) }

/-- Replace the content at a place. -/
def replace (tree : FileTree) (place : Place) (content : ByteArray) : FileTree :=
  tree.mapContents fun other old => if other = place then content else old

/-- Replace the content of the file that a path leads to. -/
def write (tree : FileTree) (path : RawText) (text : String) :
    Except AccessError FileTree := do
  let file ← tree.openFile path
  if file.mode.writable then return tree.replace file.place text.toUTF8
  else .error .permissionDenied

/-- The operations of the commands on a tree. -/
def access : FileAccess (StateM FileTree) where
  isFile path := do return (← get).isFile path
  isDirectory path := do return ((← get).directory? path).isSome
  names path := do return (← get).names path
  size path := do return (← get).size path
  read path := do return (← get).content path
  write path text := do
    match (← get).write path text with
    | .ok tree =>
      set tree
      return .ok ()
    | .error reason => return .error reason

end FileTree

end ResourceDecl
