import Stubwright.Concern.Binding
import Stubwright.Concern.Client
import Stubwright.Concern.Enumeration
import Stubwright.Concern.NamedList
import Stubwright.Concern.Resolution
import Stubwright.Concern.Server
import Stubwright.Concern.Union
import Stubwright.Document.Description
import Stubwright.Interpreter

/-!
# Generation

A description is turned into files: its schemas are indexed and rendered one by one; then, when
there are endpoints, the transport is added and the routes of each group become a client and a
server.

## Main definitions

* `concerns`, `handlers` — the vocabularies of generation and their handlers
* `Claims` — which part of a description each Java type comes from
* `Generation.drive` — the instructions for a description
* `generate`, `generateFromDocument` — a run over a description, and over its JSON form
-/

namespace Stubwright

open Source

/-! ## Concerns -/

/-- The vocabularies of generation. -/
def concerns : List Vocabulary :=
  [ Resolution.vocabulary, Model.vocabulary, Enumeration.vocabulary, NamedList.vocabulary,
    Union.vocabulary, Client.vocabulary, Server.vocabulary, Binding.vocabulary]

namespace Concern

/-- The place of the instructions on descriptions. -/
def resolution : Member Resolution.vocabulary concerns := .here

/-- The place of the instructions on models. -/
def model : Member Model.vocabulary concerns := .there .here

/-- The place of the instruction on enumerations. -/
def enumeration : Member Enumeration.vocabulary concerns := .there (.there .here)

/-- The place of the instruction on arrays. -/
def namedList : Member NamedList.vocabulary concerns := .there (.there (.there .here))

/-- The place of the instruction on unions. -/
def union : Member Union.vocabulary concerns := .there (.there (.there (.there .here)))

/-- The place of the instruction on clients. -/
def client : Member Client.vocabulary concerns :=
  .there (.there (.there (.there (.there .here))))

/-- The place of the instruction on servers. -/
def server : Member Server.vocabulary concerns :=
  .there (.there (.there (.there (.there (.there .here)))))

/-- The place of the instructions on the framework. -/
def binding : Member Binding.vocabulary concerns :=
  .there (.there (.there (.there (.there (.there (.there .here))))))

end Concern

/-- The handlers of all concerns, for a package and a configuration. -/
def handlers (package : QualifiedName) (config : GeneratorConfig) : Handlers concerns :=
  .cons Resolution.handler <|
  .cons (Model.handler package) <|
  .cons (Enumeration.handler package) <|
  .cons (NamedList.handler package) <|
  .cons (Union.handler package) <|
  .cons (Client.handler package config.clientSuffix) <|
  .cons (Server.handler package config.serverSuffix) <|
  .cons (Binding.handler package config.framework) .nil

/-! ## Claimed names -/

/-- The Java types of a run, each with what it is generated for. -/
abbrev Claims := List (String × String)

/-- Claims a type for an origin. A type can be claimed once. -/
def Claims.claim (claims : Claims) (name : Name) (origin : String) : Except String Claims :=
  match claims.lookup name.text with
  | some previous => .error s!"{origin} and {previous} both generate Java type '{name}'"
  | none => .ok ((name.text, origin) :: claims)

/-- The simple names that generated code uses without an import of its own. No schema may have one
of them as its Java name. -/
def implicitTypes : List String :=
  ["Object", "String", "Class", "Void", "Override", "Boolean", "Byte", "Short", "Integer", "Long",
    "Character", "Float", "Double", "Map"]

/-- Claims the type of a schema. -/
def Claims.claimSchema (claims : Claims) (name : Name) (schema : String) :
    Except String Claims :=
  if name.text ∈ implicitTypes then
    .error s!"schema '{schema}' maps to Java type '{name}', which generated code already uses"
  else claims.claim name s!"schema '{schema}'"

/-! ## Unions and groups -/

/-- The unions that list a schema as a variant, in order of declaration; a union that lists it
twice counts twice. -/
def unionsOf (schemas : List SchemaDef) (variant : String) : List String :=
  schemas.flatMap fun declared =>
    match declared.schema with
    | .union _ variants => (variants.filter (· = variant)).map fun _ => declared.name
    | .object _ | .enumeration _ | .array _ => []

/-- What is wrong with a variant of a union, if anything. It has to be an object schema, and the
discriminator has to be a required text among its properties, so that the getter of the property
is the one that the union asks for. -/
def variantFault? (schemas : List SchemaDef) (union discriminator variant : String) :
    Option String :=
  match (schemas.find? (·.name = variant)).map (·.schema) with
  | none => some s!"union '{union}' names unknown variant '{variant}'"
  | some (.object properties) =>
    match properties.find? (·.name = discriminator) with
    | some property =>
      if property.type = .string ∧ property.isOptional = false then none
      else some (s!"discriminator '{discriminator}' of variant '{variant}' "
        ++ "must be a required string")
    | none => some (s!"variant '{variant}' of union '{union}' "
        ++ s!"has no discriminator property '{discriminator}'")
  | some (.enumeration _) | some (.array _) | some (.union ..) =>
    some s!"variant '{variant}' of union '{union}' is not an object schema"

/-- Adds a route to its group, behind the groups that are there if it is the first of its own. -/
def addToGroup (route : Route) : List (String × List Route) → List (String × List Route)
  | [] => [(route.client, [route])]
  | (group, routes) :: rest =>
    if group = route.client then (group, routes ++ [route]) :: rest
    else (group, routes) :: addToGroup route rest

/-- Routes by group, the groups in order of first appearance. -/
def groupByClient (routes : List Route) : List (String × List Route) :=
  routes.foldl (fun groups route => addToGroup route groups) []

/-! ## The instructions for a description -/

namespace Generation

variable (handler : Handler (.all concerns))

/-- A step of a run. -/
abbrev Run (α : Type) := Step (Session handler.State) α

/-- Goes on with a value, or refuses the input with a message. -/
def accept {σ α : Type} : Except String α → Step σ α
  | .ok value => return value
  | .error message => Step.refuse message

/-- Resolves a type reference. -/
def resolve (type : TypeRef) (isOptional : Bool) : Run handler Ty := do
  let answer ← handler.exec Concern.resolution (.resolveType type isOptional)
  Resolution.Answer.asType answer

/-- The field of a property of an object schema. -/
def renderProperty (className : String) (property : Property) : Run handler ModelField := do
  let type ← resolve handler property.type property.isOptional
  let answer ← handler.exec Concern.model
    (.transformProperty className property.name type !property.isOptional)
  Model.Answer.asField answer

/-- The variant of a union that a schema name stands for. -/
def renderVariant (schemas : List SchemaDef) (union discriminator variant : String) :
    Run handler UnionVariant := do
  if let some fault := variantFault? schemas union discriminator variant then
    Step.refuse fault
  let type ← resolve handler (.ref variant) false
  return ⟨variant, type⟩

/-- Renders a schema by its kind. -/
def renderSchema (schemas : List SchemaDef) (declared : SchemaDef) : Run handler Unit := do
  let name := declared.name
  match declared.schema with
  | .object properties =>
    let fields ← properties.mapM (renderProperty handler name)
    let parents ← (unionsOf schemas name).mapM fun union => resolve handler (.ref union) false
    let answer ← handler.exec Concern.model (.renderClass name fields parents)
    discard (Model.Answer.asClass answer)
  | .enumeration values => discard (handler.exec Concern.enumeration ⟨name, values⟩)
  | .array items =>
    let type ← resolve handler items false
    discard (handler.exec Concern.namedList ⟨name, type⟩)
  | .union discriminator variants =>
    let rendered ← variants.mapM (renderVariant handler schemas name discriminator)
    discard (handler.exec Concern.union ⟨name, discriminator, rendered⟩)

/-- The imports of a side. -/
def imports (side : Binding.Side) : Run handler (List Import) := do
  let answer ← handler.exec Concern.binding (.imports side)
  Binding.Answer.asImports answer

/-- A route as the client and as the server of its group offer it. -/
def bindRoute (route : Route) : Run handler (ClientRoute × ServerRoute) := do
  let answer ← handler.exec Concern.binding (.responseType route.response)
  let returnType ← Binding.Answer.asResponseType answer
  let answer ← handler.exec Concern.binding (.routeAnnotations route.method route.path)
  let annotations ← Binding.Answer.asAnnotations answer
  let paramAnnotations ← route.params.mapM fun param => do
    let answer ← handler.exec Concern.binding (.paramAnnotations param.location param.name)
    Binding.Answer.asAnnotations answer
  return (⟨route, returnType⟩, ⟨route, returnType, annotations, paramAnnotations⟩)

/-- Renders the client and the server of a group, and claims their types. -/
def renderGroup (claims : Claims) (group : String) (routes : List Route) :
    Run handler Claims := do
  let clientImports ← imports handler .client
  let serverImports ← imports handler .server
  let bound ← routes.mapM (bindRoute handler)
  let client : Definition ←
    handler.exec Concern.client ⟨group, bound.map Prod.fst, clientImports⟩
  let claims ← accept (claims.claim client.name s!"client of group '{group}'")
  let server : Definition ←
    handler.exec Concern.server ⟨group, bound.map Prod.snd, serverImports⟩
  accept (claims.claim server.name s!"server of group '{group}'")

/-- Adds the transport and renders the groups of the endpoints. -/
def renderEndpoints (claims : Claims) (endpoints : List Endpoint) : Run handler Unit := do
  let answer ← handler.exec Concern.binding .transportSupport
  let support ← Binding.Answer.asSupport answer
  let claims ← accept (support.foldlM (fun claims definition =>
    claims.claim definition.name "transport support") claims)
  let answer ← handler.exec Concern.resolution (.extractRoutes endpoints)
  let routes ← Resolution.Answer.asRoutes answer
  discard ((groupByClient routes).foldlM (fun claims (group, routes) =>
    Step.inScope group (renderGroup handler claims group routes)) claims)

/-- Carries out the instructions for a description. -/
def drive (description : ApiDescription) : Run handler Unit := do
  let schemas := description.schemas
  let endpoints := description.endpoints
  liftExcept description.checkRequirement
  Step.info s!"{schemas.length} schemas, {endpoints.length} endpoints"
  let answer ← handler.exec Concern.resolution (.indexSchemas schemas)
  let names ← Resolution.Answer.asIndexed answer
  -- Every schema claims its type before any of them is rendered.
  let claims ← accept ((names.zip schemas).foldlM (fun (claims : Claims) (name, schema) =>
    claims.claimSchema name schema.name) [])
  schemas.forM fun schema => Step.inScope schema.name (renderSchema handler schemas schema)
  unless endpoints.isEmpty do renderEndpoints handler claims endpoints

end Generation

/-! ## Runs -/

/-- Generates with handlers of one's own. A run that fails answers nothing. -/
def generateWith {σ : Type} (handler : Handler (.all concerns)) (description : ApiDescription) :
    Step σ Codegen :=
  Prod.snd <$> Session.whole handler.start (Generation.drive handler description)

/-- Generates from a description, in a scope of its own. -/
def generate {σ : Type} (description : ApiDescription) (config : GeneratorConfig) :
    Step σ Codegen :=
  Step.inScope "generate" do
    let package ← config.readPackage
    Step.info s!"package {package}, framework {config.framework}"
    generateWith (handlers package config).combined description

/-- Reads a description document and generates from it. -/
def generateFromDocument {σ : Type} (document : String) (config : GeneratorConfig) :
    Step σ Codegen := do
  let description ← liftExcept (ApiDescription.read document)
  generate description config

end Stubwright
