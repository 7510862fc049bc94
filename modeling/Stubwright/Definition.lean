import Stubwright.Digest.Sha256
import Stubwright.GenError
import Stubwright.Source.Printer

/-!
# Definitions and the generated result

What the parts of the generator answer carries definitions, each one a type in a file of its own.
They are collected in the order in which they are made.

## Main definitions

* `Definition` — a generated type and its file
* `Codegen` — everything that a run generated: support types, clients and servers
* `Codegen.files` — the files with their paths
* `Codegen.fingerprint`, `Codegen.verify` — the digest of all files, and a check against one
-/

namespace Stubwright

open Source

/-- A generated type: its name and the file that declares it. -/
structure Definition where
  name : Name
  file : CompilationUnit
deriving DecidableEq

/-- The definition of a type in a package. -/
def Definition.ofDecl (package : QualifiedName) (imports : List Import) (decl : TypeDecl) :
    Definition := ⟨decl.name, .single package imports decl⟩

/-- What a definition is for. -/
inductive Role where
  | client
  | server
  | support
deriving DecidableEq, Repr

/-- Everything generated so far, each kind in the order it was made. -/
structure Codegen where
  support : List Definition
  clients : List Definition
  servers : List Definition
deriving DecidableEq

/-- A generated file. -/
structure GeneratedFile where
  path : String
  contents : String
deriving DecidableEq

/-- The path of a definition: a directory for each segment of the package, and the name of the
type. -/
def Definition.path (definition : Definition) : String :=
  let directories := (definition.file.package.map (·.segments)).getD []
  String.join (directories.map fun segment => segment.text ++ "/")
    ++ definition.name.text ++ ".java"

/-- The file of a definition. -/
def Definition.toFile (definition : Definition) : GeneratedFile :=
  ⟨definition.path, canonical definition.file⟩

namespace Codegen

/-- Nothing generated. -/
def empty : Codegen := ⟨[], [], []⟩

instance : EmptyCollection Codegen := ⟨empty⟩

/-- Adds a definition after those for the same role. -/
def add (result : Codegen) (role : Role) (definition : Definition) : Codegen :=
  match role with
  | .support => { result with support := result.support ++ [definition] }
  | .client => { result with clients := result.clients ++ [definition] }
  | .server => { result with servers := result.servers ++ [definition] }

/-- Whether nothing was generated. -/
def isEmpty (result : Codegen) : Bool :=
  result.support.isEmpty && result.clients.isEmpty && result.servers.isEmpty

/-- All definitions: the support types, then the clients, then the servers. -/
def definitions (result : Codegen) : List Definition :=
  result.support ++ result.clients ++ result.servers

/-- One file for each definition. -/
def files (result : Codegen) : List GeneratedFile := result.definitions.map Definition.toFile

/-- The text that the fingerprint is taken of: every path and every text, each ended by NUL. -/
def sealedText (result : Codegen) : String :=
  String.join (result.files.map fun file => file.path ++ "\x00" ++ file.contents ++ "\x00")

/-- The digest of all files, in order. -/
def fingerprint (result : Codegen) : String := Sha256.fingerprint result.sealedText

/-- The hexadecimal digits of the fingerprint. -/
def fingerprintDigits (result : Codegen) : String :=
  Sha256.hexDigest result.sealedText.toUTF8.data.toList

/-- Splits an expected fingerprint at its first colon, into the algorithm and the digits. -/
def splitFingerprint? (expected : String) : Option (String × String) :=
  let cs := expected.toList
  match cs.dropWhile (· ≠ ':') with
  | [] => none
  | _ :: digits => some (String.ofList (cs.takeWhile (· ≠ ':')), String.ofList digits)

/-- Checks the result against an expected fingerprint, whose digits may have either case. -/
def verify (result : Codegen) (expected : String) : Except GenError Unit :=
  match splitFingerprint? expected with
  | none =>
    .error (.user s!"invalid fingerprint format '{expected}'; expected 'algorithm:hex_digest'")
  | some (algorithm, digits) =>
    if algorithm = "sha256" then
      let actual := result.fingerprintDigits
      if actual.map Char.toLower = digits.map Char.toLower then .ok ()
      else .error (.user s!"sha256 mismatch: expected {digits}, got {actual}")
    else
      .error (.user
        s!"unsupported fingerprint algorithm '{algorithm}'; supported: sha256")

end Codegen

end Stubwright
