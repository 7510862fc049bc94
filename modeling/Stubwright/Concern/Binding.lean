import Stubwright.Config
import Stubwright.Description
import Stubwright.Vocabulary

/-!
# Binding to an HTTP framework

What clients and servers need of the framework: imports, the type that a method returns,
annotations, and the transport interface. A client hands every call to the transport, so generated
code has no HTTP stack of its own.

## Main definitions

* `Binding.responseType`, `Binding.routeAnnotations`, … — the pieces for a framework
* `Binding.readTransport` — the transport interface
* `Binding.vocabulary`, `Binding.handler` — the instructions and what carries them out
-/

namespace Stubwright.Binding

open Source

variable {σ : Type}

/-- The two ends of a request. -/
inductive Side where
  | client
  | server
deriving DecidableEq, Repr

/-- The word for a side. -/
def Side.keyword : Side → String
  | client => "client"
  | server => "server"

/-! ## Pieces -/

/-- What a file of a side imports. -/
def importTargets (framework : Framework) : Side → List String
  | .client => ["java.util.Map"]
  | .server =>
    match framework with
    | .jdkHttp => []
    | .jaxrs => ["javax.ws.rs.*"]

/-- The class of a value that arrives later. -/
def futureClass : Framework → String
  | .jdkHttp => "java.util.concurrent.CompletableFuture"
  | .jaxrs => "java.util.concurrent.CompletionStage"

/-- The type that a method returns for a body; an empty response is of the class `Void`. -/
def responseType (framework : Framework) (body : Option Ty) : Step σ Ty := do
  let content ← match body with
    | some type => pure type
    | none => Grammar.type.read "Void"
  match framework with
  | .jdkHttp =>
    let future ← Grammar.classType.read (futureClass framework)
    return .ofClass (future.withArgs [content])
  | .jaxrs => return content.future

/-- The annotations of the method of a route: its HTTP method and its path. -/
def routeAnnotations (framework : Framework) (method : HttpMethod) (path : String) :
    Step σ (List AnnotationUse) :=
  match framework with
  | .jdkHttp => return []
  | .jaxrs => do
    let verb ← Grammar.qualifiedName.read method.verb
    let pathName ← Grammar.qualifiedName.read "Path"
    return [.plain verb, ⟨pathName, some (.text path)⟩]

/-- The annotation class for parameters at a location. -/
def paramAnnotationClass : ParamLocation → String
  | .path => "PathParam"
  | .query => "QueryParam"
  | .header => "HeaderParam"

/-- The annotations of a parameter: where it stands, and its name on the wire. -/
def paramAnnotations (framework : Framework) (location : ParamLocation) (name : String) :
    Step σ (List AnnotationUse) :=
  match framework with
  | .jdkHttp => return []
  | .jaxrs => do
    let className ← Grammar.qualifiedName.read (paramAnnotationClass location)
    return [⟨className, some (.text name)⟩]

/-! ## Transport -/

/-- The source of the transport interface, where `future` is the class of what `send` returns. -/
def transportSource (future : String) : String :=
  String.join [
    "\nimport java.util.Map;\n",
    "\n/**\n * Sends one HTTP request and decodes the response body.\n */\n",
    "public interface ApiTransport \x7b\n",
    "    <T> ", future, "<T> send(String method, String path, Map<String, Object> query, ",
    "Map<String, Object> headers, Object body, Class<?> responseType);\n",
    "\x7d\n"]

/-- Reads the transport interface and puts it into a package. -/
def readTransport (package : QualifiedName) (framework : Framework) :
    Step σ (List Definition) := do
  let file ← Grammar.compilationUnit.read (transportSource (futureClass framework))
  match file.types with
  | [] => Step.defect "transport template declares no type"
  | decl :: _ =>
    Step.info s!"rendered transport support {decl.name}"
    return [⟨decl.name, { file with package := some package }⟩]

/-! ## Instructions -/

/-- An instruction to supply one of the pieces. -/
inductive Term where
  | imports (side : Side)
  | responseType (body : Option Ty)
  | routeAnnotations (method : HttpMethod) (path : String)
  | paramAnnotations (location : ParamLocation) (name : String)
  | transportSupport
deriving DecidableEq

/-- An answer: the piece that was asked for. -/
inductive Answer where
  | imports (imports : List Import)
  | responseType (type : Ty)
  | annotations (annotations : List AnnotationUse)
  | support (definitions : List Definition)
deriving DecidableEq

/-- A short description of an instruction. -/
def Term.label : Term → String
  | imports side => s!"{side.keyword} imports"
  | responseType (some body) => s!"response type of {body}"
  | responseType none => "empty response type"
  | routeAnnotations method path => s!"annotations for {method.verb} {path}"
  | paramAnnotations _ name => s!"annotations for parameter {name}"
  | transportSupport => "transport support"

namespace Answer

/-- What an answer is, in words. -/
def description : Answer → String
  | imports _ => "imports"
  | responseType _ => "a response type"
  | annotations _ => "annotations"
  | support _ => "support definitions"

/-- Fails because an answer is not of the kind that is expected. -/
def mismatch {α : Type} (expected : String) (answer : Answer) : Step σ α :=
  Step.defect s!"expected {expected} from framework handler, got {answer.description}"

/-- The imports that were asked for. -/
def asImports : Answer → Step σ (List Import)
  | imports targets => return targets
  | other => other.mismatch "imports"

/-- The type that was asked for. -/
def asResponseType : Answer → Step σ Ty
  | responseType type => return type
  | other => other.mismatch "a response type"

/-- The annotations that were asked for. -/
def asAnnotations : Answer → Step σ (List AnnotationUse)
  | annotations uses => return uses
  | other => other.mismatch "annotations"

/-- The support types that were asked for. -/
def asSupport : Answer → Step σ (List Definition)
  | support definitions => return definitions
  | other => other.mismatch "support definitions"

end Answer

/-- The instructions on the framework. Only the support types are definitions. -/
abbrev vocabulary : Vocabulary where
  Term := Term
  Answer := Answer
  label := Term.label
  contribute
    | .support definitions, result => definitions.foldl (fun all => all.add .support) result
    | .imports _, result | .responseType _, result | .annotations _, result => result

/-- The handler of the instructions on a framework. -/
def handler (package : QualifiedName) (framework : Framework) : Handler vocabulary :=
  .stateless fun
    | .imports side => do
      let imports ← (importTargets framework side).mapM Grammar.rawImport.read
      return .imports imports
    | .responseType body => do
      let type ← responseType framework body
      return .responseType type
    | .routeAnnotations method path => do
      let annotations ← routeAnnotations framework method path
      return .annotations annotations
    | .paramAnnotations location name => do
      let annotations ← paramAnnotations framework location name
      return .annotations annotations
    | .transportSupport => do
      let definitions ← readTransport package framework
      return .support definitions

end Stubwright.Binding
