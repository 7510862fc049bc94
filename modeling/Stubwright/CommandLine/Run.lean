import Stubwright.CommandLine.Options
import Stubwright.Generate

/-!
# Commands

`generate` writes the files of a description, `check` says what would be written.

## Main definitions

* `Console` — what a command has written to its two outputs
* `program` — a command with its arguments
* `execute` — a command to its end: exit code and outputs
-/

namespace Stubwright.CommandLine

/-- What was written to the two outputs. -/
structure Console where
  out : String
  err : String
deriving DecidableEq, Repr

/-- How a command ended: its exit code and its two outputs. -/
structure Reply where
  code : Nat
  out : String
  err : String
deriving DecidableEq, Repr

variable {m : Type → Type} [Monad m]

/-- A program that writes to a console over a file system, and may fail. -/
abbrev Program (m : Type → Type) (α : Type) := ExceptT Failure (StateT Console m) α

namespace Program

/-- Writes a line to the output. -/
def printLine (line : String) : Program m Unit :=
  modify fun console => { console with out := console.out ++ line ++ "\n" }

/-- Writes a line to the error output. -/
def noteLine (line : String) : Program m Unit :=
  modify fun console => { console with err := console.err ++ line ++ "\n" }

/-- An operation on files, whose failure is a failure of the command. -/
def onFiles {α : Type} (message : FileError → String) (operation : m (Except FileError α)) :
    Program m α := do
  match ← (operation : StateT Console m _) with
  | .ok value => return value
  | .error fault => throw (.usage (message fault))

/-- The options of a command. -/
def readOptions (files : FileSystem m) (args : List String) : Program m Options := do
  let answer : Except Failure Options ← (Options.read files args).run
  liftExcept answer

end Program

open Program

/-! ## Commands -/

/-- Generates from a description file and checks the fingerprint if one is asked for. -/
def generateChecked (files : FileSystem m) (path : String) (options : Options) :
    Program m Codegen := do
  let document ← onFiles (fun fault => s!"failed to read '{path}': {fault}") (files.read path)
  let step : Step Unit Codegen := generateFromDocument document options.config
  let (outcome, _) := step.outcome ∅ ()
  match outcome.result with
  | .error error => throw (.generation error outcome.log options.level)
  | .ok result =>
    match options.fingerprint.map result.verify with
    | some (.error error) => throw (.generation error ∅ options.level)
    | some (.ok _) | none => return result

/-- Writes a generated file into a directory. -/
def writeFile (files : FileSystem m) (directory : String) (file : GeneratedFile) :
    Program m Unit := do
  let path := joinPath directory file.path
  let parent := parentPath path
  onFiles (fun fault => s!"failed to create directory '{parent}': {fault}")
    (files.makeDirectories parent)
  onFiles (fun fault => s!"failed to write '{path}': {fault}") (files.write path file.contents)
  noteLine s!"wrote: {path}"

/-- Generates, and writes the files to the directory that was given or else to the output. -/
def generateCommand (files : FileSystem m) (path : String) (options : Options) :
    Program m Unit := do
  let result ← generateChecked files path options
  match options.out with
  | none =>
    result.files.forM fun file => do
      printLine s!"// {file.path}"
      printLine file.contents
  | some directory =>
    result.files.forM (writeFile files directory)
    noteLine s!"Generated {result.files.length} files in {directory}"

/-- Generates, and says how many definitions there are and what their fingerprint is. -/
def checkCommand (files : FileSystem m) (path : String) (options : Options) :
    Program m Unit := do
  let result ← generateChecked files path options
  printLine s!"support definitions: {result.support.length}"
  printLine s!"clients: {result.clients.length}"
  printLine s!"servers: {result.servers.length}"
  printLine s!"fingerprint: {result.fingerprint}"

/-- The command that arguments give: its name, the description file, and options. -/
def program (files : FileSystem m) : List String → Program m Unit
  | command :: path :: args => do
    let options ← readOptions files args
    if command = "generate" then generateCommand files path options
    else if command = "check" then checkCommand files path options
    else throw (.usage s!"unknown command '{command}'")
  | [_] | [] => throw (.usage "not enough arguments")

/-! ## Running a command -/

/-- How the program is used. -/
def usageText : String :=
  String.join [
    "usage:\n",
    "  apigen generate <description.json> [options] [--out <dir>]\n",
    "  apigen check <description.json> [options]\n",
    "\n",
    "options:\n",
    "  --config <file>                generator config (JSON)\n",
    "  --package <name>               Java package of the emitted units\n",
    "  --framework jdk-http|jaxrs     target framework flavor\n",
    "  --expect-fingerprint <digest>  fail unless the output hashes to sha256:<hex>\n",
    "  --log-level debug|info|warning|error\n",
    "                                 detail of the trace printed on failure\n",
    "\n",
    "without --out, generate prints every file to stdout.\n"]

/-- What is written about a failure. A command that was not given as it has to be is answered by how
the program is used. -/
def Failure.text : Failure → String
  | usage message => message ++ "\n" ++ usageText
  | generation error log level => error.report log level ++ "\n"

/-- Runs a command to its end. -/
def execute (files : FileSystem m) (args : List String) : m Reply := do
  let (result, console) ← (program files args).run.run ⟨"", ""⟩
  match result with
  | .ok _ => return ⟨0, console.out, console.err⟩
  | .error failure => return ⟨1, console.out, console.err ++ failure.text⟩

end Stubwright.CommandLine
