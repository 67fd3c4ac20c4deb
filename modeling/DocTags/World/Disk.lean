import DocTags.Text.FilePath
import DocTags.Text.Utf8

/-!
# Files

A disk holds files under paths from the root. A directory is a path that is listed as one or that
leads to a file.
-/

namespace DocTags

/-- The files that can be read. -/
structure Disk where
  files : List (String × List UInt8) := []
  directories : List String := []

namespace Disk

open Text

/-- The path is that of a directory. -/
def isDirectory (disk : Disk) (path : String) : Bool :=
  path == "/" || disk.directories.contains path
    || (disk.files.map (·.1) ++ disk.directories).any fun f =>
      (path.toList ++ ['/']).isPrefixOf f.toList

/-- The most bytes of a part of a path. -/
def maxNameBytes : Nat := 255

/-- The most bytes of a path. -/
def maxPathBytes : Nat := 4095

/-- The bytes of a name. -/
def byteLength (s : List Char) : Nat :=
  (String.ofList s).utf8ByteSize

/-- Goes from a directory, whose names from the root are given, down the parts of a path. Every part
but the last has to lead to a directory; `shown` is the path in faults. -/
def walk (disk : Disk) (shown : String) :
    List (List Char) → List (List Char) → Except FileFault (List UInt8)
  | _, [] => .error (.isDirectory shown)
  | directory, part :: rest =>
    if part = ['.', '.'] then walk disk shown directory.dropLast rest
    else
      let here := directory ++ [part]
      let path := String.ofList ('/' :: join ['/'] here)
      match disk.files.lookup path with
      | some bytes => if rest.isEmpty then .ok bytes else .error (.notADirectory shown)
      | none =>
        if disk.isDirectory path then walk disk shown here rest
        else if maxNameBytes < byteLength part then .error (.nameTooLong shown)
        else .error (.missing shown)

/-- The bytes of a file. -/
def read (disk : Disk) (path : String) : Except Fault (List UInt8) := do
  let path ← FilePath.checked path.toList
  let shown := String.ofList (FilePath.tidy path)
  if maxPathBytes < byteLength shown.toList then .error (.file (.nameTooLong shown))
  else (walk disk shown [] (FilePath.parts path)).mapError .file

/-- The text of a file, with every line end as a line feed. -/
def readText (disk : Disk) (path : String) : Except Fault (List Char) := do
  match Utf8.decode (← disk.read path) with
  | .ok s => .ok (unifyLineEnds (hold s))
  | .error e => .error (.encoding e)

end Disk

end DocTags
