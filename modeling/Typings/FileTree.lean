import Typings.Text.Lines

/-!
# Files below a directory

A tree of files and directories that paths are looked up in. A path is a text with slashes between
its parts. Every part but the last must be a directory, `.` and empty parts stay where they are, and
`..` goes up, also out of the tree. Names and paths have a largest size, and neither holds the
character that ends them.

## Main definitions

* `FileTree`: the tree.
* `isUsableName`, `isUsablePath`: the names and paths that can be used at all.
* `FileTree.locate?`: what a path leads to.
* `FileTree.read?`, `FileTree.write?`, `FileTree.createDirectories?`: access by path.
* `parentPath?`: the directory part of a path.
-/

namespace Typings

/-- Where something is: the names on the way from the top of the tree. -/
abbrev Place := List String

def pathParts (path : String) : List String :=
  (Text.pieces (· = '/') path.toList).map String.ofList

/-- Whether something can have that name: at most 255 bytes. -/
def isUsableName (name : String) : Bool :=
  name.utf8ByteSize ≤ 255

/-- Whether a path can be looked up: less than 4096 bytes, none of them zero. -/
def isUsablePath (path : String) : Bool :=
  path.utf8ByteSize < 4096 && !path.toList.contains '\x00'

/-- The directory above a place; above the top it is `..`. -/
def above (place : Place) : Place :=
  if place.all (· == "..") then place ++ [".."] else place.dropLast

/-- Files and directories. -/
structure FileTree where
  files : List (Place × String) := []
  directories : List Place := []
  deriving Repr, DecidableEq, Inhabited

namespace FileTree

def isDirectory (tree : FileTree) (place : Place) : Bool :=
  place.all (· == "..") || tree.directories.contains place

def content? (tree : FileTree) (place : Place) : Option String :=
  tree.files.lookup place

/-- Replaces or adds the file at a place. -/
def setFile (place : Place) (content : String) :
    List (Place × String) → List (Place × String)
  | [] => [(place, content)]
  | file :: rest =>
    if file.1 = place then (place, content) :: rest
    else file :: setFile place content rest

/-- The place that parts of a path lead to from a directory. -/
def locateFrom? (tree : FileTree) (directory : Place) : List String → Option Place
  | [] => some directory
  | part :: rest =>
    if part = "" ∨ part = "." then tree.locateFrom? directory rest
    else if part = ".." then tree.locateFrom? (above directory) rest
    else if !isUsableName part then none
    -- the last part need not exist
    else if rest.isEmpty then some (directory ++ [part])
    else if tree.isDirectory (directory ++ [part]) then
      tree.locateFrom? (directory ++ [part]) rest
    else none

/-- The place that a path leads to. Paths from the root of the system lead nowhere. -/
def locate? (tree : FileTree) (path : String) : Option Place :=
  if path.isEmpty || path.startsWith "/" || !isUsablePath path then none
  else tree.locateFrom? [] (pathParts path)

def read? (tree : FileTree) (path : String) : Option String :=
  (tree.locate? path).bind tree.content?

/-- Writes a file; its directory must be there. -/
def write? (tree : FileTree) (path content : String) : Option FileTree :=
  match tree.locate? path with
  | none => none
  | some place =>
    if tree.isDirectory place then none
    else some { tree with files := setFile place content tree.files }

/-- Creates the directories that parts of a path lead through from a directory. -/
def createFrom? (tree : FileTree) (directory : Place) : List String → Option FileTree
  | [] => some tree
  | part :: rest =>
    if part = "" ∨ part = "." then tree.createFrom? directory rest
    else if part = ".." then tree.createFrom? (above directory) rest
    else if !isUsableName part then none
    else
      let next := directory ++ [part]
      if tree.isDirectory next then tree.createFrom? next rest
      else if (tree.content? next).isSome then none
      else { tree with directories := tree.directories ++ [next] }.createFrom? next rest

def createDirectories? (tree : FileTree) (path : String) : Option FileTree :=
  if path.startsWith "/" || !isUsablePath path then none
  else tree.createFrom? [] (pathParts path)

/-- The tree with a file and the directories above it. -/
def addFile (tree : FileTree) (path content : String) : FileTree :=
  let withDirectories := (tree.createFrom? [] (pathParts path).dropLast).getD tree
  (withDirectories.write? path content).getD withDirectories

def ofFiles (files : List (String × String)) : FileTree :=
  files.foldl (fun tree file => tree.addFile file.1 file.2) {}

/-- The files below the top that another tree does not have with the same content, by path. -/
def changesSince (tree earlier : FileTree) : List (String × String) :=
  (tree.files.filter fun file =>
    !(file.1.head? == some "..") && earlier.content? file.1 != some file.2).map fun file =>
      (String.intercalate "/" file.1, file.2)

end FileTree

/-- Whether a part after the first one does not count. -/
def isIdlePart (part : String) : Bool :=
  part == "" || part == "."

/-- The parts up to the last one that counts. -/
def dropIdle (parts : List String) : List String :=
  (parts.reverse.dropWhile isIdlePart).reverse

/-- The directory part of a path, unless it is empty. -/
def parentPath? (path : String) : Option String :=
  match pathParts path with
  | [] => none
  | first :: rest =>
    if (dropIdle rest).isEmpty then none
    else
      let parent := String.intercalate "/" (first :: dropIdle (dropIdle rest).dropLast)
      if first.isEmpty && parent.isEmpty then some "/"
      else some parent

end Typings
