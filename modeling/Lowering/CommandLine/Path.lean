/-!
# Paths

Paths are texts whose names are divided by slashes. Empty names and names that are one dot stand for
nothing, except that a leading slash makes a path absolute.

* `segments` -- the texts between the slashes;
* `Path.names`, `Path.parentNames`, `Path.directory` -- the names of a path and of its directory;
* `Path.withExtension`, `Path.executable` -- the path with its extension replaced.
-/

namespace Lowering

/-- The texts between the slashes of a path. There is one more of them than there are slashes. -/
def segments : List Char → List (List Char)
  | [] => [[]]
  | c :: rest =>
    if c = '/' then [] :: segments rest
    else match segments rest with
      | [] => [[c]]
      | s :: more => (c :: s) :: more

/-- Texts with slashes between them. -/
def joinSlash : List (List Char) → List Char
  | [] => []
  | [s] => s
  | s :: rest => s ++ '/' :: joinSlash rest

namespace Path

/-- Whether a text between slashes stands for nothing. -/
def isIdle (s : List Char) : Bool := s == [] || s == ['.']

/-- The names of a path. -/
def names (path : String) : List String :=
  ((segments path.toList).filter fun s => !isIdle s).map String.ofList

/-- Whether a path starts at the root. -/
def isAbsolute (path : String) : Bool := path.toList.head? == some '/'

/-- Whether a path ends in a way that only a directory can. -/
def namesDirectory (path : String) : Bool :=
  match (segments path.toList).getLast? with
  | some s => isIdle s || s == ['.', '.']
  | none => true

/-- The names of the directory of a path. A path without names has none. -/
def parentNames (path : String) : List String := (names path).dropLast

/-- The directory of a path, as a path: the path up to the name before its last one. -/
def directory (path : String) : String :=
  match ((segments path.toList).reverse.dropWhile isIdle).tail.dropWhile isIdle with
  | [] => if isAbsolute path then "/" else ""
  | before => String.ofList (joinSlash before.reverse)

/-- The name of a file without its extension. A dot at the beginning starts no extension. -/
def stem (name : List Char) : List Char :=
  match name.reverse.dropWhile (· != '.') with
  | [] => name
  | [_] => name
  | _ :: before => before.reverse

/-- The extension of the name of a file: what follows the dot behind its stem. -/
def extension (name : List Char) : List Char := name.drop ((stem name).length + 1)

/-- The name of the file that a path leads to, and the texts between the slashes before it, the
nearest first. A path that goes up at its end leads to no file. -/
def fileName? (path : List Char) : Option (List Char × List (List Char)) :=
  match (segments path).reverse.dropWhile isIdle with
  | [] => none
  | name :: before => if name == ['.', '.'] then none else some (name, before)

/-- Puts an extension behind the stem of the file name, and drops what follows the stem. A path
without a file name stays as it is. -/
def putExtension (path extension : List Char) : List Char :=
  match fileName? path with
  | none => path
  | some (name, before) => joinSlash (before.reverse ++ [stem name ++ '.' :: extension])

/-- The path without as many characters at its end as the extension of its file name has. -/
def cutExtension (path : List Char) : List Char :=
  match fileName? path with
  | none => path
  | some (name, _) => path.take (path.length - (extension name).length)

/-- The path with the extension of its file name replaced, or added if there is none. The old
extension is cut off first, so a file whose name starts with two dots and has no third one loses its
name: what is left goes up one directory. -/
def withExtension (path extension : String) : String :=
  String.ofList (putExtension (cutExtension path.toList) extension.toList)

/-- The path of the executable that is built from a source. -/
def executable (source : String) : String := withExtension source "out"

end Path

end Lowering
