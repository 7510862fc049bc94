import Stubwright.Requirement
import Stubwright.Text.Quoted

/-!
# API descriptions

What a run generates from: the schemas of an API and its endpoints, in the words of the wire.
-/

namespace Stubwright

/-- A reference to a type of the description. -/
inductive TypeRef where
  | string
  | integer
  | long
  | number
  | boolean
  | date
  | dateTime
  | ref (name : String)
  | array (items : TypeRef)
  | map (values : TypeRef)
deriving DecidableEq, Repr

/-- A type reference as diagnostics show it. -/
def TypeRef.display : TypeRef → String
  | string => "String"
  | integer => "Integer"
  | long => "Long"
  | number => "Number"
  | boolean => "Boolean"
  | date => "Date"
  | dateTime => "DateTime"
  | ref name => "Ref \x7b name: " ++ Text.display name ++ " \x7d"
  | array items => "Array \x7b items: " ++ items.display ++ " \x7d"
  | map values => "Map \x7b values: " ++ values.display ++ " \x7d"

/-- The depth of arrays and maps in a type reference. -/
def TypeRef.nesting : TypeRef → Nat
  | array items => items.nesting + 1
  | map values => values.nesting + 1
  | _ => 0

/-- A property of an object schema. -/
structure Property where
  name : String
  type : TypeRef
  isOptional : Bool
deriving DecidableEq, Repr

/-- The shape of a schema. Each variant of a union names an object schema. -/
inductive Schema where
  | object (properties : List Property)
  | enumeration (values : List String)
  | array (items : TypeRef)
  | union (discriminator : String) (variants : List String)
deriving DecidableEq, Repr

/-- A schema with its name. -/
structure SchemaDef where
  name : String
  schema : Schema
deriving DecidableEq, Repr

/-- Where a parameter stands in a request. -/
inductive ParamLocation where
  | path
  | query
  | header
deriving DecidableEq, Repr

/-- The word for a location. -/
def ParamLocation.keyword : ParamLocation → String
  | path => "path"
  | query => "query"
  | header => "header"

/-- A parameter of an endpoint. -/
structure EndpointParameter where
  name : String
  location : ParamLocation
  type : TypeRef
  isRequired : Bool
deriving DecidableEq, Repr

/-- A response of an endpoint. -/
structure EndpointResponse where
  status : Nat
  body : Option TypeRef
deriving DecidableEq, Repr

/-- Whether a response reports success: its status is one of 200 to 299. -/
def EndpointResponse.isSuccess (response : EndpointResponse) : Bool :=
  200 ≤ response.status && response.status < 300

/-- An HTTP method. -/
inductive HttpMethod where
  | get
  | post
  | put
  | delete
  | patch
  | head
  | options
deriving DecidableEq, Repr

namespace HttpMethod

/-- All methods. -/
def all : List HttpMethod := [get, post, put, delete, patch, head, options]

/-- The method as a description spells it. -/
def keyword : HttpMethod → String
  | get => "get"
  | post => "post"
  | put => "put"
  | delete => "delete"
  | patch => "patch"
  | head => "head"
  | options => "options"

/-- The method as a request spells it. -/
def verb : HttpMethod → String
  | get => "GET"
  | post => "POST"
  | put => "PUT"
  | delete => "DELETE"
  | patch => "PATCH"
  | head => "HEAD"
  | options => "OPTIONS"

end HttpMethod

/-- An endpoint of the API. -/
structure Endpoint where
  operationId : String
  method : HttpMethod
  path : String
  tags : List String
  parameters : List EndpointParameter
  requestBody : Option TypeRef
  responses : List EndpointResponse
deriving DecidableEq, Repr

/-- The client that an endpoint belongs to: its first tag, or `default` without tags. -/
def Endpoint.group (endpoint : Endpoint) : String := endpoint.tags.head?.getD "default"

/-- An API: its schemas and its endpoints, and the generator versions it asks for. -/
structure ApiDescription where
  requires : Option String
  schemas : List SchemaDef
  endpoints : List Endpoint
deriving DecidableEq, Repr

/-- Checks that this generator is of a version that the description asks for. -/
def ApiDescription.checkRequirement (description : ApiDescription) : Except GenError Unit :=
  match description.requires with
  | none => .ok ()
  | some requirement => Stubwright.checkRequirement requirement

end Stubwright
