/-!
# Files

What the command line needs of a file system, in whatever monad the system lives.
-/

namespace Stubwright.CommandLine

/-- Why a file could not be read or written. -/
inductive FileError where
  | notFound
  | alreadyExists
  | notDirectory
  | isDirectory
  | other (text : String)
deriving DecidableEq, Repr

/-- The reason as the operating system words it. -/
def FileError.message : FileError → String
  | notFound => "No such file or directory (os error 2)"
  | alreadyExists => "File exists (os error 17)"
  | notDirectory => "Not a directory (os error 20)"
  | isDirectory => "Is a directory (os error 21)"
  | other text => text

instance : ToString FileError := ⟨FileError.message⟩

/-- A file system. Paths are texts with slashes between their parts. -/
structure FileSystem (m : Type → Type) where
  /-- The text of a file. -/
  read : String → m (Except FileError String)
  /-- Makes a directory together with those around it; one that is there already is kept. -/
  makeDirectories : String → m (Except FileError Unit)
  /-- Writes a file, in place of one that is there already. -/
  write : String → String → m (Except FileError Unit)

/-- The path of a file inside a directory. The empty path is the directory one is in. -/
def joinPath (directory file : String) : String :=
  if directory.isEmpty ∨ directory.toList.getLast? = some '/' then directory ++ file
  else directory ++ "/" ++ file

/-- The path up to its last slash, the directory that a file stands in. -/
def parentPath (path : String) : String :=
  String.ofList ((path.toList.reverse.dropWhile (· ≠ '/')).drop 1).reverse

end Stubwright.CommandLine
