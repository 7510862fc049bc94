import Stubwright.CommandLine.FileSystem
import Stubwright.Document.Config

/-!
# Options of the command line

Options are pairs of a flag and a value. A later pair replaces an earlier one with the same flag,
and the flags for the package and the framework go before a configuration file wherever they stand.

## Main definitions

* `Flag` — the flags
* `Choices` — the values given so far
* `Options.read` — reads the options of a command
-/

namespace Stubwright.CommandLine

/-- Why a command failed: it was not given as it has to be, or the run failed. -/
inductive Failure where
  | usage (message : String)
  | generation (error : GenError) (log : Log) (level : LogLevel)
deriving DecidableEq, Repr

/-- A flag. -/
inductive Flag where
  | config
  | package
  | framework
  | out
  | expectFingerprint
  | logLevel
deriving DecidableEq, Repr

namespace Flag

/-- All flags. -/
def all : List Flag := [config, package, framework, out, expectFingerprint, logLevel]

/-- The flag as it is written. -/
def spelling : Flag → String
  | config => "--config"
  | package => "--package"
  | framework => "--framework"
  | out => "--out"
  | expectFingerprint => "--expect-fingerprint"
  | logLevel => "--log-level"

/-- The flag with a spelling. -/
def ofSpelling? (text : String) : Option Flag := all.find? (·.spelling = text)

/-- A flag is found by its own spelling. -/
theorem ofSpelling?_spelling (flag : Flag) : ofSpelling? flag.spelling = some flag := by
  cases flag <;> decide

end Flag

/-- The values given so far. -/
structure Choices where
  config : Option GeneratorConfig
  package : Option String
  framework : Option Framework
  out : Option String
  fingerprint : Option String
  level : Option LogLevel
deriving DecidableEq, Repr

/-- Nothing given. -/
def Choices.none : Choices := ⟨.none, .none, .none, .none, .none, .none⟩

/-- The options of a command: the configuration, the directory to write to, the fingerprint that the
result must have, and the detail of the trace of a run that fails. -/
structure Options where
  config : GeneratorConfig
  out : Option String
  fingerprint : Option String
  level : LogLevel
deriving DecidableEq, Repr

/-- The options that values make. -/
def Choices.toOptions (choices : Choices) : Options :=
  let config := choices.config.getD .standard
  { config :=
      { config with
        package := choices.package.getD config.package
        framework := choices.framework.getD config.framework }
    out := choices.out
    fingerprint := choices.fingerprint
    level := choices.level.getD .info }

namespace Options

variable {m : Type → Type} [Monad m]

/-- Goes on with a value, or fails with what its error says. -/
def orUsage {ε α : Type} (message : ε → String) : Except ε α → ExceptT Failure m α
  | .ok value => return value
  | .error fault => throw (.usage (message fault))

/-- The configuration in a file. -/
def readConfig (files : FileSystem m) (path : String) : ExceptT Failure m GeneratorConfig := do
  let text ← orUsage (fun fault => s!"failed to read config '{path}': {fault}") (← files.read path)
  orUsage GenError.display (GeneratorConfig.read text)

/-- Takes the value of a flag. -/
def choose (files : FileSystem m) (choices : Choices) (flag : Flag) (value : String) :
    ExceptT Failure m Choices :=
  match flag with
  | .config => do
    let config ← readConfig files value
    return { choices with config := some config }
  | .package => return { choices with package := some value }
  | .framework => do
    let framework ← orUsage GenError.display (Framework.parse value)
    return { choices with framework := some framework }
  | .out => return { choices with out := some value }
  | .expectFingerprint => return { choices with fingerprint := some value }
  | .logLevel => do
    let level ← orUsage LogLevel.unknownMessage (LogLevel.parse value)
    return { choices with level := some level }

/-- The flag that a text spells. -/
def readFlag (text : String) : ExceptT Failure m Flag :=
  match Flag.ofSpelling? text with
  | some flag => return flag
  | none => throw (.usage s!"unknown option '{text}'")

/-- Takes pairs of a flag and a value in order. -/
def readChoices (files : FileSystem m) (choices : Choices) :
    List String → ExceptT Failure m Choices
  | [] => return choices
  | [text] => do
    let flag ← readFlag text
    throw (.usage s!"missing value for {flag.spelling}")
  | text :: value :: rest => do
    let flag ← readFlag text
    let chosen ← choose files choices flag value
    readChoices files chosen rest

/-- Reads the options of a command. -/
def read (files : FileSystem m) (args : List String) : ExceptT Failure m Options := do
  let choices ← readChoices files .none args
  return choices.toOptions

end Options

end Stubwright.CommandLine
