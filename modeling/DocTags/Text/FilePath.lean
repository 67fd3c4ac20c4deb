import DocTags.Report.Problem
import DocTags.Text.Lines
import DocTags.Text.Surrogate

/-!
# File paths

Paths are texts with slashes between their parts. Everything is decided on the text: a path is
tidied by dropping empty parts and single points, and resolved from the root by taking every double
point back to the part before it.
-/

namespace DocTags.FilePath

open Text

/-- The parts of a path that name something or lead up. -/
def parts (s : List Char) : List (List Char) :=
  (splitAt '/' s).filter fun p => !p.isEmpty && p != ['.']

/-- The slashes in front of an absolute path: two if it has exactly two, else one. -/
def root : List Char → List Char
  | '/' :: '/' :: '/' :: _ => ['/']
  | '/' :: '/' :: _ => ['/', '/']
  | '/' :: _ => ['/']
  | _ => []

/-- A path that starts at the root. -/
def isAbsolute (s : List Char) : Bool :=
  !(root s).isEmpty

/-- The path without empty parts and single points. -/
def tidy (s : List Char) : List Char :=
  match root s ++ join ['/'] (parts s) with
  | [] => ['.']
  | t => t

/-- Takes double points back; above the root they do nothing. -/
def climb (parts : List (List Char)) : List (List Char) :=
  parts.foldl (fun done p => if p = ['.', '.'] then done.dropLast else done ++ [p]) []

/-- The code point can be written to the name of a file: no half of a surrogate pair, unless it is
one that stands for a byte. -/
def isWritable (n : Nat) : Bool :=
  !isHalf n || (0xDC80 ≤ n && n ≤ 0xDCFF)

/-- A path that files can have. -/
def checked (path : List Char) : Except Fault (List Char) :=
  if path.contains '\x00' then .error .invalidPath
  else if !(points path).all isWritable then .error .unwritable
  else .ok path

/-- The path from the root that a path leads to from there. -/
def resolve (path : String) : Except Fault String := do
  let path ← checked path.toList
  return String.ofList ('/' :: join ['/'] (climb (parts path)))

/-- The path from a directory, unless it is absolute. -/
def under (directory path : List Char) : List Char :=
  if isAbsolute path then tidy path
  else tidy (root directory ++ join ['/'] (parts directory ++ parts path))

/-- The directory that holds what the path names. -/
def parent (s : List Char) : List Char :=
  match root s, (parts s).dropLast with
  | [], [] => ['.']
  | r, ps => r ++ join ['/'] ps

end DocTags.FilePath
