import Stubwright.CommandLine.Run

/-!
# The program

The command line over the files of the machine.
-/

open Stubwright.CommandLine

/-- The failure of a file operation. -/
def fileErrorOf : IO.Error → FileError
  | .noFileOrDirectory .. => .notFound
  | .alreadyExists .. => .alreadyExists
  | .inappropriateType _ code _ => if code = 21 then .isDirectory else .notDirectory
  | fault => .other (toString fault)

/-- A file operation with its failure as a value. -/
def attemptFiles {α : Type} (operation : IO α) : IO (Except FileError α) := do
  match ← operation.toBaseIO with
  | .ok value => return .ok value
  | .error fault => return .error (fileErrorOf fault)

/-- The text of a file, which has to be UTF-8. -/
def readTextFile (path : String) : IO (Except FileError String) := do
  match ← attemptFiles (IO.FS.readBinFile path) with
  | .ok bytes =>
    match String.fromUTF8? bytes with
    | some text => return .ok text
    | none => return .error (.other "stream did not contain valid UTF-8")
  | .error fault => return .error fault

/-- The file system of the machine. -/
def machineFiles : FileSystem IO where
  read := readTextFile
  makeDirectories path := attemptFiles (IO.FS.createDirAll path)
  write path contents := attemptFiles (IO.FS.writeFile path contents)

/-- Runs the command that the arguments give. -/
def main (args : List String) : IO UInt32 := do
  let reply ← execute machineFiles args
  (← IO.getStdout).putStr reply.out
  (← IO.getStderr).putStr reply.err
  return UInt32.ofNat reply.code
