import Mathlib.Data.Prod.Basic
import Stubwright.Proofs.Concern.Paths
import Stubwright.Proofs.Concern.Routes
import Stubwright.Proofs.Concern.SchemaIndex

/-!
# Which endpoints have routes

Endpoints become routes together or not at all. What decides is written in the endpoints, but for
the schemas that their types name, which have to be registered. A route has the parameters of its
endpoint, and those that a request may leave out have an optional type.

## Main definitions

* `SchemaIndex.wires` — the wire names of the schemas that are registered
* `Endpoint.IsSound` — an endpoint that has a route, in terms of its path and its types

## Main results

* `SchemaIndex.isNamed_after` — every schema is named after its wire name
* `Resolution.exists_routes_iff` — which endpoints have routes, and which parameters are optional
-/

namespace Stubwright

open Source

/-! ## Reached indexes -/

namespace SchemaIndex

/-- The wire names of the schemas that are registered, in order. -/
def wires (index : SchemaIndex) : List String := index.entries.map Prod.fst

@[simp] theorem wires_of (wires : List String) : (of wires).wires = wires := by
  simp [SchemaIndex.wires, of, Function.comp_def]

/-- Every schema has the Java name that its wire name tells. -/
def IsNamed (index : SchemaIndex) : Prop := index = of index.wires

/-- Every index that is reached from lists of schemas has the names that the wire names tell. -/
theorem isNamed_after (lists : List (List SchemaDef)) (log : Log) :
    (after lists log).IsNamed := by
  rw [IsNamed, after_eq_of, wires_of]

end SchemaIndex

/-! ## Optional parameters -/

theorem Source.Ty.name?_ofClass (type : ClassType) : (ofClass type).name? = some type.name := by
  simp [name?, ofClass, classType?, RefType.classType?, ClassType.toRef]

/-- Unboxing leaves a class only where it was one. -/
theorem Source.Ty.name?_of_unboxed {type : Ty} {name : QualifiedName}
    (h : type.unboxed.name? = some name) : type.name? = some name := by
  unfold unboxed at h
  split at h
  · split at h
    · cases h
    · exact h
  · exact h

/-- No type reference stands for the class `java.util.Optional`. -/
theorem TypeRef.name?_java_ne_optional (type : TypeRef) :
    type.java.name? ≠ some LibraryName.optional := by
  have hname {found : ClassType} (name : QualifiedName) (hfound : found.name = name)
      (hne : name ≠ LibraryName.optional) :
      (Ty.ofClass found).name? ≠ some LibraryName.optional := by
    rw [Ty.name?_ofClass, hfound]
    exact fun heq => hne (Option.some.inj heq)
  cases type with
  | ref name =>
    refine hname _ rfl fun heq => absurd (congrArg QualifiedName.qualifier heq) ?_
    change ¬ ([] : List Name) = LibraryName.optional.qualifier
    decide
  | array items => exact hname LibraryName.list rfl (by decide)
  | map values => exact hname LibraryName.map rfl (by decide)
  | _ => exact hname _ rfl (by decide)

/-- A parameter of a route has an optional type exactly when a request may leave it out. -/
theorem EndpointParameter.name?_type_route (param : EndpointParameter) :
    param.route.type.name? = some LibraryName.optional ↔
      param.isRequired = false ∧ param.location ≠ .path := by
  have hoptional : Resolution.isOptionalParam param = true ↔
      param.isRequired = false ∧ param.location ≠ .path := by
    simp [Resolution.isOptionalParam]
  rw [← hoptional]
  change (if Resolution.isOptionalParam param then param.type.java.optional
    else param.type.java.unboxed).name? = _ ↔ _
  split
  · exact iff_of_true (Ty.name?_ofClass _) ‹_›
  · refine iff_of_false (fun h => ?_) ‹_›
    exact param.type.name?_java_ne_optional (Ty.name?_of_unboxed h)

/-! ## Sound endpoints -/

/-- An endpoint that has a route when the schemas `wires` are registered: its path begins with a
slash, all braces of the path belong to placeholders, and these are the path parameters; its
parameters have names of their own in Java; and its types name schemas that are registered. -/
structure Endpoint.IsSound (wires : List String) (endpoint : Endpoint) : Prop where
  slash : endpoint.path.toList.head? = some '/'
  template : ∃ names, PathTemplate endpoint.path.toList names ∧ ∀ name, name ∈ names ↔
    ∃ param ∈ endpoint.parameters, param.location = .path ∧ param.name = name
  distinct : (endpoint.parameters.map fun param => Naming.memberName param.name "param").Nodup
  params : ∀ param ∈ endpoint.parameters, ∀ name ∈ param.type.refs, name ∈ wires
  body : ∀ type ∈ endpoint.requestBody, ∀ name ∈ type.refs, name ∈ wires
  response : ∀ response ∈ endpoint.responses.find? (·.isSuccess), ∀ type ∈ response.body,
    ∀ name ∈ type.refs, name ∈ wires

/-- The path is told from its characters, and the first successful response from the responses. -/
theorem Endpoint.isAccepted_iff {wires : List String} {endpoint : Endpoint} :
    endpoint.IsAccepted wires ↔ endpoint.IsSound wires := by
  have hparam (name : String) : name ∈ Resolution.pathParamNames endpoint ↔
      ∃ param ∈ endpoint.parameters, param.location = .path ∧ param.name = name := by
    simp [Resolution.pathParamNames, and_assoc]
  have hdistinct : (endpoint.parameters.map EndpointParameter.term).Nodup ↔
      (endpoint.parameters.map fun param => Naming.memberName param.name "param").Nodup := by
    rw [← List.nodup_map_iff Name.text_injective, List.map_map]
    simp [Function.comp_def, EndpointParameter.term]
  have hresponse : (∀ type ∈ endpoint.responseBody?, ∀ name ∈ type.refs, name ∈ wires) ↔
      ∀ response ∈ endpoint.responses.find? (·.isSuccess), ∀ type ∈ response.body,
        ∀ name ∈ type.refs, name ∈ wires := by
    unfold responseBody?
    cases endpoint.responses.find? (·.isSuccess) <;> simp
  constructor
  · intro h
    obtain ⟨hslash, names, htemplate, hnames⟩ := Resolution.pathFault?_eq_none_iff.1 h.path
    exact ⟨hslash, ⟨names, htemplate, fun name => (hnames name).trans (hparam name)⟩,
      hdistinct.1 h.distinct, h.params, h.body, hresponse.1 h.response⟩
  · intro h
    obtain ⟨names, htemplate, hnames⟩ := h.template
    exact ⟨Resolution.pathFault?_eq_none_iff.2
        ⟨h.slash, names, htemplate, fun name => (hnames name).trans (hparam name).symm⟩,
      hdistinct.2 h.distinct, h.params, h.body, hresponse.2 h.response⟩

namespace Resolution

/-! ## Extraction -/

/-- Whatever schemas are registered, endpoints have routes exactly when each of them is sound and no
two share their client and the Java name of their operation. There is then one route for each
endpoint, in order, and its optional parameters are those that are neither required nor in the
path. -/
theorem exists_routes_iff (lists : List (List SchemaDef)) (endpoints : List Endpoint)
    (before log : Log) :
    let index := SchemaIndex.after lists before
    let run := ((handle (.extractRoutes endpoints)).outcome log index).1.result
    ((∃ answer, run = .ok answer) ↔
      (∀ endpoint ∈ endpoints, endpoint.IsSound index.wires) ∧
        (endpoints.map fun endpoint =>
          (endpoint.group, Naming.memberName endpoint.operationId "operation")).Nodup) ∧
    ∀ answer, run = .ok answer → answer = .routes (endpoints.map Endpoint.route) ∧
      ∀ endpoint ∈ endpoints, List.Forall₂ (fun param routed =>
        routed.type.name? = some LibraryName.optional ↔
          param.isRequired = false ∧ param.location ≠ .path)
        endpoint.parameters endpoint.route.params := by
  intro index run
  have hkeys : (endpoints.map Endpoint.key).Nodup ↔ (endpoints.map fun endpoint =>
      (endpoint.group, Naming.memberName endpoint.operationId "operation")).Nodup := by
    rw [← List.nodup_map_iff (Function.injective_id.prodMap Name.text_injective), List.map_map]
    simp [Function.comp_def, Endpoint.key, Endpoint.operation]
  have hrun (answer : Answer) : run = .ok answer ↔
      ((endpoints.map Endpoint.key).Nodup ∧
        ∀ endpoint ∈ endpoints, endpoint.IsAccepted index.wires) ∧
      answer = .routes (endpoints.map Endpoint.route) := by
    have hdecides : (handle (.extractRoutes endpoints)).Decides (.of index.wires) _ _ _ :=
      answer_extractRoutes_decides endpoints
    rw [← SchemaIndex.isNamed_after lists before] at hdecides
    exact hdecides.result_eq_ok_iff
  refine ⟨?_, fun answer hanswer => ⟨((hrun answer).1 hanswer).2, fun endpoint _ => ?_⟩⟩
  · simp only [hrun, exists_and_left, exists_eq, and_true, hkeys, Endpoint.isAccepted_iff]
    exact and_comm
  · rw [Endpoint.route, List.forall₂_map_right_iff, List.forall₂_same]
    exact fun param _ => param.name?_type_route

theorem exists_routes_iff_pets :
    ∃ (lists : List (List SchemaDef)) (endpoints : List Endpoint) (routes : List Route),
      ((handle (.extractRoutes endpoints)).outcome ∅ (SchemaIndex.after lists ∅)).1.result =
        .ok (.routes routes) ∧
      routes.map (·.operation.text) = ["renamePet", "list", "list"] ∧
      routes.map (fun route => route.params.map fun param =>
        (param.term.text, decide (param.type.name? = some LibraryName.optional))) =
          [[("id", false), ("v1", false), ("dryRun", true), ("xActor", false)], [], []] := by
  obtain ⟨lists, hlists⟩ : ∃ lists : List (List SchemaDef), lists =
    [[⟨"pet", .object []⟩, ⟨"Pet", .object []⟩], [⟨"shop", .object []⟩]] := ⟨_, rfl⟩
  obtain ⟨endpoints, hendpoints⟩ : ∃ endpoints : List Endpoint, endpoints =
    [ ⟨"rename pet", .put, "/pets/\x7bid\x7d\x7bv-1\x7d/ñ", ["pets"],
        [⟨"id", .path, .long, false⟩, ⟨"v-1", .path, .string, true⟩,
          ⟨"dry-run", .query, .boolean, false⟩, ⟨"X-Actor", .header, .ref "shop", true⟩],
        some (.ref "pet"), [⟨404, some (.ref "fault")⟩, ⟨204, none⟩, ⟨200, some (.ref "fault")⟩]⟩,
      ⟨"list", .get, "/pets", ["pets"], [], none, [⟨200, some (.array (.ref "pet"))⟩]⟩,
      ⟨"list", .get, "/shops", [], [], none, [⟨200, some (.map (.ref "shop"))⟩]⟩] := ⟨_, rfl⟩
  have hwires : (SchemaIndex.after lists ∅).wires = ["pet", "shop"] := by
    rw [hlists]
    decide +kernel
  obtain ⟨hsucceeds, hroutes⟩ := exists_routes_iff lists endpoints ∅ ∅
  obtain ⟨answer, hanswer⟩ := hsucceeds.2 (by
    simp only [← Endpoint.isAccepted_iff, hwires, hendpoints]
    decide +kernel)
  obtain ⟨rfl, -⟩ := hroutes answer hanswer
  refine ⟨lists, endpoints, _, hanswer, ?_, ?_⟩
  all_goals
    rw [hendpoints]
    decide +kernel

end Resolution

end Stubwright
