import Betik.SourceFile

/-!
# Directories

A tree of files held in memory, and how paths are followed in it. A path is a list of names between
slashes. An empty name and `.` stand for the directory they are met in, `..` for the one above; all
three need a directory to stand in.

A file is stored under a path by making every directory the path goes through, those included that
it leaves again by `..`. Nothing else is there, apart from the root, the directories above it and
the top.

The tree can be read from outside, where a path comes after that of the root, or from inside, where
it stands alone. The two differ on the empty path: from outside it is the root, from inside nothing.
-/

namespace Betik

/-- Where the names of a place start. -/
inductive Base where
  /-- The root, or the directory so many levels above it. -/
  | above (levels : Nat)
  /-- The directory at which paths with a leading slash start. Above it is itself. -/
  | top
deriving DecidableEq

/-- A place in a tree: the names on the way to it from its base, the last one first. -/
structure Place where
  base : Base := .above 0
  names : List String := []
deriving DecidableEq

namespace Place

/-- The place above. -/
def parent (place : Place) : Place :=
  match place.names, place.base with
  | _ :: names, _ => { place with names }
  | [], .above levels => { base := .above (levels + 1) }
  | [], .top => place

/-- The place that a name leads to. -/
def enter (place : Place) (name : String) : Place :=
  if name = "" ∨ name = "." then place
  else if name = ".." then place.parent
  else { place with names := name :: place.names }

/-- The place at which a path starts. -/
def start (path : String) : Place :=
  if path.toList.head? = some '/' then { base := .top } else {}

end Place

/-- Files and directories by their places. Of two files at one place the first one counts. -/
structure Directory where
  files : List (Place × ByteArray) := []
  folders : List Place := []

namespace Directory

/-- The names of a path. -/
def names (path : String) : List String :=
  (path.toList.splitOn '/').map String.ofList

/-- The places that names lead through. -/
def passed (place : Place) : List String → List Place
  | [] => []
  | name :: rest => place.enter name :: passed (place.enter name) rest

/-- Stores a file under a path, in place of one that is there. -/
def store (d : Directory) (path : String) (content : ByteArray) : Directory where
  files := ((names path).foldl Place.enter (Place.start path), content) :: d.files
  folders := passed (Place.start path) (names path).dropLast ++ d.folders

/-- A directory with files stored one after the other. -/
def ofList (files : List (String × ByteArray)) : Directory :=
  files.foldl (fun d (path, content) => d.store path content) {}

/-- The content of the file at a place. -/
def content? (d : Directory) (place : Place) : Option ByteArray :=
  d.files.lookup place

/-- Whether a file or a directory is at a place. -/
def exists? (d : Directory) (place : Place) : Bool :=
  place.names.isEmpty || d.folders.contains place || (d.content? place).isSome

/-- The most bytes that a name can have. -/
def nameLimit : Nat := 255

/-- The most bytes that a path can have. -/
def pathLimit : Nat := 4095

/-- Follows one name from a place. -/
def step (d : Directory) (place : Place) (name : String) : Except ReadFailure Place :=
  if (d.content? place).isSome then .error .notDirectory
  else if nameLimit < name.utf8ByteSize then .error .tooLong
  else if d.exists? (place.enter name) then .ok (place.enter name)
  else .error .missing

/-- Follows a path. -/
def follow (d : Directory) (path : String) : Except ReadFailure Place :=
  if path.toList.contains '\x00' then .error .notPath
  else if pathLimit < path.utf8ByteSize then .error .tooLong
  else (names path).foldlM d.step (Place.start path)

/-- Reads the files of the tree from outside. -/
def reader (d : Directory) : FileReader := fun path => do
  let place ← d.follow path
  match d.content? place with
  | some content => .ok content
  | none => .error .isDirectory

/-- Reads the files of the tree from inside. -/
def innerReader (d : Directory) : FileReader := fun path =>
  if path = "" then .error .missing else d.reader path

end Directory

end Betik
