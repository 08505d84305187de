import ResourceDecl.Files.RawText

/-!
# Access to files

The commands see files through a record of six operations on paths, `FileAccess`, so that the same
commands run on a disk and on a `FileTree`. `readSource` reads a source through it: not above
16 MiB, and only as UTF-8.
-/

namespace ResourceDecl

/-- Why a path cannot be used. -/
inductive AccessError
  | notFound
  | permissionDenied
  | notDirectory
  | isDirectory
  | nameTooLong
  | tooManyLinks
  | zeroByte
  | notUtf8
  /-- Any other reason, in the words of the system. -/
  | other (text : String)
deriving DecidableEq, Inhabited

/-- The wording of the reason. -/
def AccessError.message : AccessError → String
  | notFound => "No such file or directory (os error 2)"
  | permissionDenied => "Permission denied (os error 13)"
  | notDirectory => "Not a directory (os error 20)"
  | isDirectory => "Is a directory (os error 21)"
  | nameTooLong => "File name too long (os error 36)"
  | tooManyLinks => "Too many levels of symbolic links (os error 40)"
  | zeroByte => "file name contained an unexpected NUL byte"
  | notUtf8 => "stream did not contain valid UTF-8"
  | other text => text

/-- The operations on paths that the commands use. Links are followed by all of them. -/
structure FileAccess (m : Type → Type) where
  /-- The path leads to a regular file. -/
  isFile : RawText → m Bool
  /-- The path leads to a directory. -/
  isDirectory : RawText → m Bool
  /-- The names in a directory in any order, none if it cannot be listed. -/
  names : RawText → m (List RawText)
  /-- The number of bytes that a path leads to. -/
  size : RawText → m (Except AccessError Nat)
  /-- The bytes of a file. -/
  read : RawText → m (Except AccessError ByteArray)
  /-- Replace the content of a file. -/
  write : RawText → String → m (Except AccessError Unit)

/-- Why there is no source. -/
inductive SourceError
  | inaccessible (path : RawText) (reason : AccessError)
  | tooLarge (path : RawText) (size : Nat)
  | unreadable (path : RawText) (reason : AccessError)
  | nothingFound (path : RawText)
deriving DecidableEq, Inhabited

/-- Number of bytes that a source may have. -/
def maxSourceSize : Nat := 16 * 1024 * 1024

/-- The wording of the reason. -/
def SourceError.message : SourceError → String
  | inaccessible path reason => "cannot access '" ++ path.display ++ "': " ++ reason.message
  | tooLarge path size =>
    "source file '" ++ path.display ++ "' is too large (" ++ toString size ++ " bytes, max " ++
      toString maxSourceSize ++ " bytes)"
  | unreadable path reason => "error reading '" ++ path.display ++ "': " ++ reason.message
  | nothingFound path => "no .res files found under '" ++ path.display ++ "'"

/-- The text of bytes in UTF-8. -/
def decodeSource (path : RawText) (bytes : ByteArray) : Except SourceError String :=
  match String.fromUTF8? bytes with
  | some source => .ok source
  | none => .error (.unreadable path .notUtf8)

/-- Read a source. -/
def readSource {m : Type → Type} [Monad m] (files : FileAccess m) (path : RawText) :
    m (Except SourceError String) := do
  match ← files.size path with
  | .error reason => return .error (.inaccessible path reason)
  | .ok size =>
    if size > maxSourceSize then return .error (.tooLarge path size)
    else
      match ← files.read path with
      | .error reason => return .error (.unreadable path reason)
      | .ok bytes => return decodeSource path bytes

end ResourceDecl
