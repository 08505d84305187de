import ResourceDecl.Files.Access
import ResourceDecl.Sorting

/-!
# Finding declaration files

A path that leads to a file stands for that file, whatever its name. A directory stands for the
files below it that end in `.res`; hidden directories and build output are passed over. The files
come in the order of their paths, name by name.
-/

namespace ResourceDecl

open RawText

/-- A path with one more name at its end. -/
def joinPath (directory name : RawText) : RawText :=
  if directory.bytes.getLast? = some slash then ⟨directory.bytes ++ name.bytes⟩
  else ⟨directory.bytes ++ slash :: name.bytes⟩

/-- The name ends in `.res`, with something in front of the dot. -/
def isResourceName (name : RawText) : Bool :=
  let backwards := name.bytes.reverse
  backwards.takeWhile (· != dot) == (RawText.ofString "res").bytes.reverse &&
    decide (4 < backwards.length)

/-- The directory is hidden or holds build output. Of a name that is no text nothing is known. -/
def isPassedOver (directory : RawText) : Bool :=
  let name := directory.text?.getD ""
  name.toList.head? == some '.' || name == "target" || name == "out"

/-- A file that was found: the names that lead to it, and its path. -/
structure FoundFile where
  names : List RawText
  path : RawText
deriving DecidableEq, Inhabited

/-- Order of paths: name by name, and a directory in front of what it holds. -/
def namesLE : List RawText → List RawText → Bool
  | [], _ => true
  | _ :: _, [] => false
  | a :: as, b :: bs => if a = b then namesLE as bs else decide (a < b)

/-- A bound on the depth of any directory, since no path is longer than 4096 bytes. -/
def maxDepth : Nat := 4096

variable {m : Type → Type} [Monad m]

/-- The declaration files below a directory, in the order in which it lists them; `names` leads to
the directory. -/
def filesBelow (files : FileAccess m) (depth : Nat) (names : List RawText) (directory : RawText) :
    m (List FoundFile) :=
  match depth with
  | 0 => return []
  | depth + 1 => do
    let found ← (← files.names directory).mapM fun name => do
      let path := joinPath directory name
      if ← files.isDirectory path then
        if isPassedOver name then return []
        else filesBelow files depth (names ++ [name]) path
      else
        return if isResourceName name then [⟨names ++ [name], path⟩] else []
    return found.flatten

/-- The declaration files that a path stands for. -/
def sourcePaths (files : FileAccess m) (path : RawText) : m (List RawText) := do
  if ← files.isFile path then return [path]
  else
    let found ← filesBelow files maxDepth [] path
    return (sortBy (fun a b => namesLE a.names b.names) found).map FoundFile.path

end ResourceDecl
