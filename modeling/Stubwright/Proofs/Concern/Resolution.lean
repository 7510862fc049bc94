import Stubwright.Proofs.Concern.Routes

/-!
# What is resolved

A type reference is resolved to a class that nests as deep as the reference does. The types of a
route are therefore bounded by the references of its endpoint.

## Main definitions

* `ApiDescription.typeRefs` — the type references of a description
* `Route.TypesWithin` — a route with a bound on the nesting of its types

## Main results

* `TypeRef.isClassWithin_java` — a resolved type nests as deep as its reference
* `Endpoint.typesWithin_route` — the types of a route
-/

namespace Stubwright

open Source

/-! ## Type references -/

/-- The type references of a schema. -/
def Schema.typeRefs : Schema → List TypeRef
  | .object properties => properties.map (·.type)
  | .array items => [items]
  | .enumeration _ | .union .. => []

/-- The type references of an endpoint: of its parameters, its request and its responses. -/
def Endpoint.typeRefs (endpoint : Endpoint) : List TypeRef :=
  endpoint.parameters.map (·.type)
    ++ (endpoint.requestBody.toList ++ endpoint.responses.filterMap (·.body))

/-- The type references of a description. -/
def ApiDescription.typeRefs (description : ApiDescription) : List TypeRef :=
  description.schemas.flatMap (·.schema.typeRefs) ++ description.endpoints.flatMap Endpoint.typeRefs

/-! ## Resolved types -/

theorem Source.Ty.IsClassWithin.optional {type : Ty} {depth : Nat} (h : type.IsClassWithin depth) :
    type.optional.IsClassWithin (depth + 1) :=
  Ty.isClassWithin_library (List.forall_mem_singleton.2 h)

namespace TypeRef

/-- A resolved type nests as deep as the reference. -/
theorem isClassWithin_java (type : TypeRef) : type.java.IsClassWithin type.nesting := by
  induction type with
  | array items ih => exact Ty.isClassWithin_library (List.forall_mem_singleton.2 ih)
  | map values ih =>
    have hkey : Ty.text.IsClassWithin values.nesting :=
      (Ty.isClassWithin_plain _).mono (Nat.zero_le _)
    exact Ty.isClassWithin_library (List.forall_mem_cons.2 ⟨hkey, List.forall_mem_singleton.2 ih⟩)
  | _ => exact Ty.isClassWithin_plain _

/-- A type is declared as an optional one, which adds a level, or without its wrapper class. -/
theorem isVariable_java {type : TypeRef} (h : type.nesting < nestingLimit) (isOptional : Bool) :
    (if isOptional then type.java.optional else type.java.unboxed).IsVariable := by
  cases isOptional with
  | false => exact (type.isClassWithin_java.isVariable h.le).unboxed
  | true => exact type.isClassWithin_java.optional.isVariable h

end TypeRef

/-! ## Routes -/

/-- A route whose types may be declared and whose response nests no deeper than `depth`. -/
structure Route.TypesWithin (depth : Nat) (route : Route) : Prop where
  params : ∀ param ∈ route.params, param.type.IsVariable
  body : ∀ type ∈ route.body, type.IsVariable
  response : ∀ type ∈ route.response, type.IsClassWithin depth

/-- The references of a response are among those of its endpoint. -/
theorem Endpoint.mem_typeRefs_of_responseBody? {endpoint : Endpoint} {type : TypeRef}
    (h : type ∈ endpoint.responseBody?) : type ∈ endpoint.typeRefs := by
  obtain ⟨response, hfind, hbody⟩ := Option.bind_eq_some_iff.1 h
  have hresponse := List.mem_of_find?_eq_some hfind
  exact List.mem_append_right _ (List.mem_append_right _
    (List.mem_filterMap.2 ⟨response, hresponse, hbody⟩))

/-- The route of an endpoint keeps within the nesting of the references of the endpoint. -/
theorem Endpoint.typesWithin_route {depth : Nat} (hdepth : depth < nestingLimit)
    {endpoint : Endpoint} (h : ∀ type ∈ endpoint.typeRefs, type.nesting ≤ depth) :
    endpoint.route.TypesWithin depth := by
  constructor
  · refine List.forall_mem_map.2 fun param hparam => ?_
    exact TypeRef.isVariable_java ((h _ (List.mem_append_left _ (List.mem_map_of_mem hparam))).trans_lt
      hdepth) _
  · intro java hjava
    obtain ⟨type, hbody, rfl⟩ := Option.map_eq_some_iff.1 hjava
    have hnesting := h type (List.mem_append_right _ (List.mem_append_left _
      (Option.mem_toList.2 hbody)))
    exact type.isClassWithin_java.isVariable (hnesting.trans hdepth.le)
  · intro java hjava
    obtain ⟨type, hbody, rfl⟩ := Option.map_eq_some_iff.1 hjava
    exact type.isClassWithin_java.mono (h type (mem_typeRefs_of_responseBody? hbody))

end Stubwright
