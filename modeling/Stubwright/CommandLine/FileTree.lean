import Stubwright.CommandLine.FileSystem

/-!
# File trees

A file system as a value: directories and files under a root, and the directory that relative paths
begin in.

## Main definitions

* `FileTree.locate` — the place that a path leads to
* `FileTree.read`, `FileTree.makeDirectories`, `FileTree.write` — the operations on files
* `FileTree.fileSystem` — a tree as the file system of a program
-/

namespace Stubwright.CommandLine

/-- What stands at a place of a file tree. -/
inductive FileNode where
  | directory
  | file (contents : String)
deriving DecidableEq, Repr

/-- A place in a file tree: the names on the way from the root. -/
abbrev Place := List String

/-- A file tree, and the place where relative paths begin. -/
structure FileTree where
  entries : List (Place × FileNode)
  home : Place
deriving DecidableEq, Repr

namespace FileTree

/-- The tree with nothing but a home directory under the root. -/
def fresh : FileTree := ⟨[(["home"], .directory)], ["home"]⟩

/-- What stands at a place. The root is a directory. -/
def node? (tree : FileTree) (place : Place) : Option FileNode :=
  if place = [] then some .directory else tree.entries.lookup place

/-- Puts something at a place. -/
def put (tree : FileTree) (place : Place) (node : FileNode) : FileTree :=
  { tree with entries := (place, node) :: tree.entries.filter (·.1 ≠ place) }

/-- One step from a directory: to itself, to the one around it, or to an entry. -/
def step (here : Place) (name : String) : Place :=
  if name = "" ∨ name = "." then here
  else if name = ".." then here.dropLast
  else here ++ [name]

/-- The place where a path begins. -/
def origin (tree : FileTree) (path : String) : Place :=
  if path.toList.head? = some '/' then [] else tree.home

/-- The place that steps lead to. There has to be a directory wherever a step is taken. -/
def walk (tree : FileTree) (here : Place) : List String → Except FileError Place
  | [] => .ok here
  | name :: rest =>
    match tree.node? here with
    | some .directory => walk tree (step here name) rest
    | some (.file _) => .error .notDirectory
    | none => .error .notFound

/-- The place that a path leads to, where something may stand or not. -/
def locate (tree : FileTree) (path : String) : Except FileError Place :=
  if path.isEmpty then .error .notFound else tree.walk (tree.origin path) (path.splitOn "/")

/-- The text of a file. -/
def read (tree : FileTree) (path : String) : Except FileError String := do
  match tree.node? (← tree.locate path) with
  | some (.file contents) => .ok contents
  | some .directory => .error .isDirectory
  | none => .error .notFound

/-- Writes a file in a directory that is there. -/
def write (tree : FileTree) (path contents : String) : Except FileError FileTree := do
  let place ← tree.locate path
  match tree.node? place with
  | some .directory => .error .isDirectory
  | some (.file _) | none => .ok (tree.put place (.file contents))

/-- Takes steps and makes the directories that are missing. -/
def makeAlong (tree : FileTree) (here : Place) : List String → Except FileError FileTree
  | [] => .ok tree
  | name :: rest =>
    let next := step here name
    match tree.node? next with
    | some .directory => makeAlong tree next rest
    -- A file in the place of the directory itself is named apart from one on the way to it.
    | some (.file _) => .error (if rest.isEmpty then .alreadyExists else .notDirectory)
    | none => makeAlong (tree.put next .directory) next rest

/-- Makes a directory and those around it. -/
def makeDirectories (tree : FileTree) (path : String) : Except FileError FileTree :=
  if path.isEmpty then .ok tree else tree.makeAlong (tree.origin path) (path.splitOn "/")

/-- The fresh tree with files in it. A file that cannot be written is left out. -/
def ofFiles (files : List (String × String)) : FileTree :=
  files.foldl (fun tree (path, contents) =>
    match do (← tree.makeDirectories (parentPath path)).write path contents with
    | .ok written => written
    | .error _ => tree) fresh

/-- The files under the home directory, with their paths from there. -/
def files (tree : FileTree) : List (String × String) :=
  tree.entries.filterMap fun (place, node) =>
    match node with
    | .file contents =>
      if tree.home.isPrefixOf place then
        some (String.intercalate "/" (place.drop tree.home.length), contents)
      else none
    | .directory => none

/-- Changes the tree, unless the change fails. -/
def update (change : FileTree → Except FileError FileTree) :
    StateM FileTree (Except FileError Unit) := fun tree =>
  match change tree with
  | .ok changed => (.ok (), changed)
  | .error fault => (.error fault, tree)

/-- A tree as the file system of a program. -/
def fileSystem : FileSystem (StateM FileTree) where
  read path := do return (← get).read path
  makeDirectories path := update (·.makeDirectories path)
  write path contents := update (·.write path contents)

end FileTree

end Stubwright.CommandLine
