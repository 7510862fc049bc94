import Stubwright.Source.Fragment

/-!
# Configuration of the generator
-/

namespace Stubwright

open Source

/-- The HTTP framework that clients and servers are written against. -/
inductive Framework where
  /-- Plain futures of the standard library. -/
  | jdkHttp
  /-- Servers with JAX-RS annotations, and completion stages. -/
  | jaxrs
deriving DecidableEq, Repr

namespace Framework

/-- All frameworks. -/
def all : List Framework := [jdkHttp, jaxrs]

/-- The framework as a configuration spells it. -/
def keyword : Framework → String
  | jdkHttp => "jdk-http"
  | jaxrs => "jaxrs"

instance : ToString Framework := ⟨keyword⟩

/-- Reads the keyword of a framework. -/
def parse (text : String) : Except GenError Framework :=
  match all.find? (·.keyword = text) with
  | some framework => .ok framework
  | none => .error (.user s!"unknown framework '{text}'; expected 'jdk-http' or 'jaxrs'")

/-- A framework is read from its own keyword. -/
theorem parse_keyword (framework : Framework) : parse framework.keyword = .ok framework := by
  cases framework <;> rfl

end Framework

/-- What a run may be told apart from the description: the package of the generated types, the
framework, and what is appended to the name of a group of routes. -/
structure GeneratorConfig where
  package : String
  framework : Framework
  clientSuffix : String
  serverSuffix : String
deriving DecidableEq, Repr

namespace GeneratorConfig

/-- The configuration where nothing is told. -/
def standard : GeneratorConfig := ⟨"com.example.api", .jdkHttp, "Client", "Handler"⟩

/-- Reads the package as a qualified name. -/
def readPackage {σ : Type} (config : GeneratorConfig) : Step σ QualifiedName :=
  Grammar.qualifiedName.read config.package

end GeneratorConfig

end Stubwright
