import Stubwright.Config
import Stubwright.Json.Reader
import Stubwright.Json.Record

/-!
# Configuration documents

The JSON form of a configuration. What a document does not tell is as in the standard
configuration.
-/

namespace Stubwright.GeneratorConfig

/-- The configuration in a JSON value. -/
def ofJson? (json : Json) : Option GeneratorConfig :=
  match json.record? ["package", "framework", "clientSuffix", "serverSuffix"] with
  | some [package, framework, clientSuffix, serverSuffix] => do
    let package ← Json.defaulted? standard.package Json.asText? package
    let framework ← Json.defaulted? standard.framework
      (Json.keyword? Framework.all Framework.keyword) framework
    let clientSuffix ← Json.defaulted? standard.clientSuffix Json.asText? clientSuffix
    let serverSuffix ← Json.defaulted? standard.serverSuffix Json.asText? serverSuffix
    return ⟨package, framework, clientSuffix, serverSuffix⟩
  | _ => none

/-- Reads a document. -/
def read (document : String) : Except GenError GeneratorConfig :=
  match (Json.parse? document).bind ofJson? with
  | some config => .ok config
  | none => .error (.user "invalid generator config")

end Stubwright.GeneratorConfig
