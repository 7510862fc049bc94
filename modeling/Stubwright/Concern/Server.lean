import Stubwright.Concern.Signature
import Stubwright.JavaName
import Stubwright.Vocabulary

/-!
# Servers

A group of routes becomes an interface with a method for each route.
-/

namespace Stubwright.Server

open Source

variable {σ : Type}

/-- Parameters with the annotations of a list put on them in order. Parameters behind the end of
the list keep their own. -/
def annotate : List Parameter → List (List AnnotationUse) → List Parameter
  | [], _ => []
  | params, [] => params
  | param :: params, annotations :: rest => { param with annotations } :: annotate params rest

/-- What is said of a route whose parameters and lists of annotations differ in number. -/
def uneven (server : ServerRoute) : String :=
  s!"{server.route.operation} has {server.route.params.length} parameters "
    ++ s!"but {server.paramAnnotations.length} parameter annotation lists"

/-- The method of a route. There has to be a list of annotations for each of its parameters. -/
def method (server : ServerRoute) : Step σ MethodDecl := do
  let route := server.route
  if server.paramAnnotations.length ≠ route.params.length then Step.defect (uneven server)
  let signature ← route.readSignature
  let params := annotate signature.params server.paramAnnotations
  return ⟨server.annotations, [], [], server.returnType, route.operation, params, none⟩

/-- The interface of a group of routes, named for the group and a suffix. -/
def render (package : QualifiedName) (suffix group : String) (routes : List ServerRoute)
    (imports : List Import) : Step σ Definition := do
  let interfaceName ← JavaName.ofType s!"{group} {suffix}"
  let methods ← routes.mapM method
  Step.info s!"rendered server {interfaceName} ({routes.length} routes)"
  let decl := TypeDecl.publicType .interfaceType interfaceName (methods.map .method)
  return .ofDecl package imports decl

/-- The instruction to render the server of a group of routes. -/
structure Term where
  group : String
  routes : List ServerRoute
  imports : List Import
deriving DecidableEq

/-- The instruction on servers. Its answer is a server. -/
abbrev vocabulary : Vocabulary where
  Term := Term
  Answer := Definition
  label term := s!"render server {term.group} ({term.routes.length} routes)"
  contribute definition result := result.add .server definition

/-- The handler of the instruction on servers. -/
def handler (package : QualifiedName) (suffix : String) : Handler vocabulary :=
  .stateless fun term => render package suffix term.group term.routes term.imports

end Stubwright.Server
