import Stubwright.Concern.Binding
import Stubwright.Proofs.Concern.References

/-!
# The pieces of a framework

What a framework supplies is fixed but for the types, paths and names that are put into it. None of
it refuses anything: every text that is read for it is one of a few.

## Main definitions

* `Binding.returnType`, `Binding.importsOf`, `Binding.annotationsOf`, … — the pieces
* `Binding.transport` — the transport interface

## Main results

* `Binding.responseType_decides`, `Binding.readTransport_decides`, … — the pieces that are supplied
-/

namespace Stubwright.Binding

open Source

variable {σ : Type} {state : σ}

/-! ## Types and annotations -/

/-- The name of the class of a value that arrives later. -/
def futureName : Framework → QualifiedName
  | .jdkHttp => LibraryName.javaConcurrent.child ⟨"CompletableFuture", by decide⟩
  | .jaxrs => LibraryName.completionStage

/-- The class of a future is read from the text of its name. -/
theorem text_futureName (framework : Framework) :
    (futureName framework).text = futureClass framework := by
  cases framework <;> decide +kernel

/-- The class `Void`. -/
def voidType : Ty := .reference Ty.voidClass

/-- The type that a method returns for a body: a future of it, or of `Void`. -/
def returnType (framework : Framework) (body : Option Ty) : Ty :=
  .library (futureName framework) [body.getD voidType]

/-- `Void` is read as the class that stands for an empty response. -/
theorem readVoid_decides : (Grammar.type.read "Void").Decides state True voidType state :=
  Grammar.readSimpleType_decides ⟨"Void", by decide⟩

theorem responseType_decides (framework : Framework) (body : Option Ty) :
    (responseType framework body).Decides state True (returnType framework body) state := by
  have hjdk : ∀ content : Ty, (do
      let future ← Grammar.classType.read (futureClass .jdkHttp)
      return Ty.ofClass (future.withArgs [content])).Decides state True
        (.library (futureName .jdkHttp) [content]) state := by
    intro content
    rw [← text_futureName]
    exact (Grammar.read_decides (Grammar.parse_classType _)).andThen .pure
  unfold responseType
  cases body with
  | none =>
    cases framework with
    | jdkHttp => exact readVoid_decides.andThen (hjdk voidType)
    | jaxrs => exact readVoid_decides.andThen .pure
  | some type =>
    cases framework with
    | jdkHttp => exact Step.Decides.pure.andThen (hjdk type)
    | jaxrs => exact Step.Decides.pure.andThen .pure

/-- The name of an annotation. -/
def annotationName : ParamLocation → QualifiedName
  | .path => .simple ⟨"PathParam", by decide⟩
  | .query => .simple ⟨"QueryParam", by decide⟩
  | .header => .simple ⟨"HeaderParam", by decide⟩

/-- The name of the annotation for an HTTP method. -/
def verbName : HttpMethod → QualifiedName
  | .get => .simple ⟨"GET", by decide⟩
  | .post => .simple ⟨"POST", by decide⟩
  | .put => .simple ⟨"PUT", by decide⟩
  | .delete => .simple ⟨"DELETE", by decide⟩
  | .patch => .simple ⟨"PATCH", by decide⟩
  | .head => .simple ⟨"HEAD", by decide⟩
  | .options => .simple ⟨"OPTIONS", by decide⟩

/-- The annotations of the method of a route. -/
def routeUses (framework : Framework) (method : HttpMethod) (path : String) : List AnnotationUse :=
  match framework with
  | .jdkHttp => []
  | .jaxrs => [.plain (verbName method), ⟨.simple ⟨"Path", by decide⟩, some (.text path)⟩]

/-- The annotations of a parameter. -/
def paramUses (framework : Framework) (location : ParamLocation) (name : String) :
    List AnnotationUse :=
  match framework with
  | .jdkHttp => []
  | .jaxrs => [⟨annotationName location, some (.text name)⟩]

theorem routeAnnotations_decides (framework : Framework) (method : HttpMethod) (path : String) :
    (routeAnnotations framework method path).Decides state True (routeUses framework method path)
      state := by
  have hverb : (Grammar.qualifiedName.read method.verb).Decides state True (verbName method)
      state := by cases method <;> exact Grammar.readSimpleName_decides ⟨_, by decide⟩
  have hpath : (Grammar.qualifiedName.read "Path").Decides state True
      (.simple ⟨"Path", by decide⟩) state := Grammar.readSimpleName_decides ⟨"Path", by decide⟩
  cases framework with
  | jdkHttp => exact .pure
  | jaxrs => exact hverb.andThen (hpath.andThen .pure)

theorem paramAnnotations_decides (framework : Framework) (location : ParamLocation)
    (name : String) :
    (paramAnnotations framework location name).Decides state True
      (paramUses framework location name) state := by
  have hclass : (Grammar.qualifiedName.read (paramAnnotationClass location)).Decides state True
      (annotationName location) state := by
    cases location <;> exact Grammar.readSimpleName_decides ⟨_, by decide⟩
  cases framework with
  | jdkHttp => exact .pure
  | jaxrs => exact hclass.andThen .pure

/-! ## Imports -/

/-- What a file of a side imports. -/
def importsOf (framework : Framework) : Side → List Import
  | .client => [.ofType LibraryName.map]
  | .server =>
    match framework with
    | .jdkHttp => []
    | .jaxrs => [⟨.ofSegments ⟨"javax", by decide⟩ [⟨"ws", by decide⟩, ⟨"rs", by decide⟩], false,
        true⟩]

theorem readImports_decides (framework : Framework) (side : Side) :
    ((importTargets framework side).mapM Grammar.rawImport.read).Decides state True
      (importsOf framework side) state := by
  have hread : ∀ target i, Grammar.rawImport.parse target = .ok i →
      ([target].mapM Grammar.rawImport.read).Decides state True [i] state := by
    intro target i h
    have hone : ∀ item ∈ [target], (Grammar.rawImport.read item).Decides state True i state := by
      intro item hitem
      obtain rfl := List.mem_singleton.1 hitem
      exact Grammar.read_decides h
    exact .mapEach hone
  cases side with
  | client => exact hread _ _ (by decide +kernel)
  | server =>
    cases framework with
    | jdkHttp => exact .pure
    | jaxrs => exact hread _ _ (by decide +kernel)

/-! ## Transport -/

/-- The name of the transport interface. -/
def transportTypeName : Name := ⟨"ApiTransport", by decide⟩

/-- The name of its method. -/
def sendName : Name := ⟨"send", by decide⟩

/-- The name of the parameter for the body of a request. -/
def bodyName : Name := ⟨"body", by decide⟩

/-- The method of the transport interface. -/
def sendMethod (future : QualifiedName) : MethodDecl :=
  let content : Name := ⟨"T", by decide⟩
  let values : Ty := .ofClass (.ofTypes (.simple LibraryName.map.name)
    [.text, .ofClass (.plain (.simple ⟨"Object", by decide⟩))])
  { annotations := []
    modifiers := []
    typeParams := [content]
    returnType := .library future [.ofClass (.plain (.simple content))]
    name := sendName
    params :=
      [ .plain .text ⟨"method", by decide⟩,
        .plain .text ⟨"path", by decide⟩,
        .plain values ⟨"query", by decide⟩,
        .plain values ⟨"headers", by decide⟩,
        .plain (.ofClass (.plain (.simple ⟨"Object", by decide⟩))) bodyName,
        .plain (.ofClass (.ofArgs (.simple ⟨"Class", by decide⟩) [.any]))
          ⟨"responseType", by decide⟩]
    body := none }

/-- The transport interface. -/
def transportDecl (future : QualifiedName) : TypeDecl :=
  .publicType .interfaceType transportTypeName [.method (sendMethod future)]

/-- The transport interface in a package. -/
def transport (package : QualifiedName) (framework : Framework) : Definition :=
  .ofDecl package [.ofType LibraryName.map] (transportDecl (futureName framework))

/-- The source of the transport is read as an interface that is known beforehand. -/
theorem parse_transportSource (framework : Framework) :
    Grammar.compilationUnit.parse (transportSource (futureClass framework)) =
      .ok ⟨none, [.ofType LibraryName.map], [transportDecl (futureName framework)]⟩ := by
  rw [Grammar.parse, Parser.parseText, tokenize, transportSource, String.toList_join]
  -- The characters of a text are costly to evaluate, so the texts are spelled out beforehand.
  cases framework <;>
    simp only [futureClass, List.flatMap_cons, List.flatMap_nil, String.reduceToList] <;>
    decide +kernel

theorem readTransport_decides (package : QualifiedName) (framework : Framework) :
    (readTransport package framework).Decides state True [transport package framework] state := by
  unfold readTransport
  apply (Grammar.read_decides (parse_transportSource framework)).andThen
  exact .logged .pure

/-! ## Instructions -/

section

variable (package : QualifiedName) (framework : Framework)

/-- The framework supplies the imports of either side. -/
theorem answer_imports_decides (side : Side) :
    ((handler package framework).handle (.imports side)).Decides () True
      (.imports (importsOf framework side)) () :=
  (readImports_decides framework side).andReturn Answer.imports

/-- It supplies the type of every response, an empty one included. -/
theorem answer_responseType_decides (body : Option Ty) :
    ((handler package framework).handle (.responseType body)).Decides () True
      (.responseType (returnType framework body)) () :=
  (responseType_decides framework body).andReturn Answer.responseType

/-- It supplies the annotations of every method. -/
theorem answer_routeAnnotations_decides (method : HttpMethod) (path : String) :
    ((handler package framework).handle (.routeAnnotations method path)).Decides () True
      (.annotations (routeUses framework method path)) () :=
  (routeAnnotations_decides framework method path).andReturn Answer.annotations

/-- It supplies the annotations of every parameter. -/
theorem answer_paramAnnotations_decides (location : ParamLocation) (name : String) :
    ((handler package framework).handle (.paramAnnotations location name)).Decides () True
      (.annotations (paramUses framework location name)) () :=
  (paramAnnotations_decides framework location name).andReturn Answer.annotations

/-- It supplies the transport, since its source is read. -/
theorem answer_transportSupport_decides :
    ((handler package framework).handle .transportSupport).Decides () True
      (.support [transport package framework]) () :=
  (readTransport_decides package framework).andReturn Answer.support

end

end Stubwright.Binding
