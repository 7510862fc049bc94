import Stubwright.Description
import Stubwright.Json.Reader
import Stubwright.Json.Record

/-!
# Description documents

The JSON form of an API description. A schema or a type reference is taken only when everything in
it is sound, unknown fields included; elsewhere unknown fields are passed over.

## Main definitions

* `TypeRef.ofJson?`, `SchemaDef.ofJson?`, `Endpoint.ofJson?` — the parts of a document
* `ApiDescription.read` — a document
-/

namespace Stubwright

/-- Arrays and objects nest at most this deep where everything is read. -/
def documentDepth : Nat := 127

/-! ## Type references -/

namespace TypeRef

/-- The tags of type references. -/
def tags : List String :=
  ["string", "integer", "long", "number", "boolean", "date", "date-time", "ref", "array", "map"]

/-- The single field of a type reference. -/
def operand? (name : String) (fields : Json) : Option Json :=
  match fields.record? [name] with
  | some [operand] => operand
  | _ => none

/-- A type reference that nests at most `room` deep. Inside it a tag may be given by its place. -/
def ofSound? (allowsIndex : Bool) : Nat → Json → Option TypeRef
  | 0, _ => none
  | room + 1, json => do
    let (tag, fields) ← json.tagged? "type" tags allowsIndex
    let plain := fun (type : TypeRef) => if fields.isBare then some type else none
    match tag with
    | "string" => plain string
    | "integer" => plain integer
    | "long" => plain long
    | "number" => plain number
    | "boolean" => plain boolean
    | "date" => plain date
    | "date-time" => plain dateTime
    | "ref" => ref <$> (← operand? "name" fields).asText?
    | "array" => array <$> ofSound? true room (← operand? "items" fields)
    | "map" => map <$> ofSound? true room (← operand? "values" fields)
    | _ => none

/-- A type reference with arrays and objects nested at most `room` deep. -/
def ofJson? (room : Nat) (json : Json) : Option TypeRef :=
  if json.isSound room then ofSound? false room json else none

end TypeRef

/-! ## Schemas -/

/-- A property of an object schema. -/
def Property.ofJson? (room : Nat) (json : Json) : Option Property :=
  match json.record? ["name", "type", "optional"] with
  | some [name, type, isOptional] => do
    let name ← Json.required? Json.asText? name
    let type ← Json.required? (TypeRef.ofSound? true room) type
    let isOptional ← Json.defaulted? false Json.asBool? isOptional
    return ⟨name, type, isOptional⟩
  | _ => none

/-- The kinds of schemas. -/
def Schema.kinds : List String := ["object", "enum", "array", "union"]

/-- The shape of a schema from the fields of its kind. -/
def Schema.ofFields? (room : Nat) (kind : String) (fields : Json) : Option Schema :=
  match kind with
  | "object" =>
    match fields.record? ["properties"] with
    | some [properties] =>
      object <$> Json.defaulted? [] (Json.asList? (Property.ofJson? room)) properties
    | _ => none
  | "enum" =>
    match fields.record? ["values"] with
    | some [values] => enumeration <$> Json.required? (Json.asList? Json.asText?) values
    | _ => none
  | "array" =>
    match fields.record? ["items"] with
    | some [items] => array <$> Json.required? (TypeRef.ofSound? true room) items
    | _ => none
  | "union" =>
    match fields.record? ["discriminator", "variants"] with
    | some [discriminator, variants] => do
      let discriminator ← Json.required? Json.asText? discriminator
      let variants ← Json.required? (Json.asList? Json.asText?) variants
      return union discriminator variants
    | _ => none
  | _ => none

/-- A schema with arrays and objects nested at most `room` deep. Its name stands among the fields of
its kind, so it is always an object. -/
def SchemaDef.ofJson? (room : Nat) (json : Json) : Option SchemaDef :=
  match json with
  | .object fields => do
    if !json.isSound room then none
    let name ← Json.required? Json.asText? (← Json.single? "name" fields)
    let (kind, fields) ←
      (Json.object (Json.without "name" fields)).tagged? "kind" Schema.kinds true
    return ⟨name, ← Schema.ofFields? room kind fields⟩
  | _ => none

/-! ## Endpoints -/

/-- All locations of parameters. -/
def ParamLocation.all : List ParamLocation := [path, query, header]

/-- A parameter of an endpoint. -/
def EndpointParameter.ofJson? (room : Nat) (json : Json) : Option EndpointParameter :=
  match json.record? ["name", "in", "type", "required"] with
  | some [name, location, type, isRequired] => do
    let name ← Json.required? Json.asText? name
    let location ←
      Json.required? (Json.keyword? ParamLocation.all ParamLocation.keyword) location
    let type ← Json.required? (TypeRef.ofJson? (room - 1)) type
    let isRequired ← Json.defaulted? false Json.asBool? isRequired
    return ⟨name, location, type, isRequired⟩
  | _ => none

/-- The status of a response: it has sixteen bits. -/
def EndpointResponse.status? (json : Json) : Option Nat :=
  json.asNatural?.filter (· < 0x10000)

/-- A response of an endpoint. -/
def EndpointResponse.ofJson? (room : Nat) (json : Json) : Option EndpointResponse :=
  match json.record? ["status", "body"] with
  | some [status, body] => do
    let status ← Json.required? status? status
    let body ← Json.optional? (TypeRef.ofJson? (room - 1)) body
    return ⟨status, body⟩
  | _ => none

/-- An endpoint with arrays and objects nested at most `room` deep. -/
def Endpoint.ofJson? (room : Nat) (json : Json) : Option Endpoint :=
  let names :=
    ["operationId", "method", "path", "tags", "parameters", "requestBody", "responses"]
  match json.record? names with
  | some [operationId, method, path, tags, parameters, requestBody, responses] => do
    let operationId ← Json.required? Json.asText? operationId
    let method ← Json.required? (Json.keyword? HttpMethod.all HttpMethod.keyword) method
    let path ← Json.required? Json.asText? path
    let tags ← Json.defaulted? [] (Json.asList? Json.asText?) tags
    let parameters ←
      Json.defaulted? [] (Json.asList? (EndpointParameter.ofJson? (room - 2))) parameters
    let requestBody ← Json.optional? (TypeRef.ofJson? (room - 1)) requestBody
    let responses ←
      Json.defaulted? [] (Json.asList? (EndpointResponse.ofJson? (room - 2))) responses
    return ⟨operationId, method, path, tags, parameters, requestBody, responses⟩
  | _ => none

/-! ## Documents -/

namespace ApiDescription

/-- The description in a JSON value. -/
def ofJson? (json : Json) : Option ApiDescription :=
  match json.record? ["requires", "schemas", "endpoints"] with
  | some [requires, schemas, endpoints] => do
    let room := documentDepth - 2
    let requires ← Json.optional? Json.asText? requires
    let schemas ← Json.defaulted? [] (Json.asList? (SchemaDef.ofJson? room)) schemas
    let endpoints ← Json.defaulted? [] (Json.asList? (Endpoint.ofJson? room)) endpoints
    return ⟨requires, schemas, endpoints⟩
  | _ => none

/-- Reads a document. -/
def read (document : String) : Except GenError ApiDescription :=
  match (Json.parse? document).bind ofJson? with
  | some description => .ok description
  | none => .error (.user "invalid API description")

end ApiDescription

end Stubwright
