import Stubwright.Generate
import Stubwright.Proofs.Concern.GroupTypes
import Stubwright.Proofs.Concern.SupportTypes
import Stubwright.Proofs.Messages

/-!
# What the concerns log

Every instruction of every concern logs a trace: it reads texts, records messages, and opens scopes
only by running a step inside of them. Each text that it reads can be read, whatever names the
instruction is about, and its other messages are remarks. One of them begins with names on the wire,
so it is told apart: it is the note that is made of a property.

## Main definitions

* `Model.PropertyLogs` — what may be logged on a property
* `Concern.Logs` — what an instruction may log

## Main results

* `Resolution.handler_traces`, `Model.handler_traces`, … — the handlers of the concerns
* `handlers_traces` — the handler of all concerns together
-/

namespace Stubwright

open Source

variable {σ : Type}

/-! ## Readable texts and remarks -/

namespace Source.Grammar

private theorem readName_traces (n : Name) :
    (name.read n.text : Step σ Name).Traces LogLevel.IsSound :=
  read_traces (EntryPoint.name.isSound_note (parse_name n))

private theorem readSimpleName_traces (n : Name) :
    (qualifiedName.read n.text : Step σ QualifiedName).Traces LogLevel.IsSound := by
  rw [← QualifiedName.text_simple]
  exact read_traces (EntryPoint.qualifiedName.isSound_note (parse_qualifiedName _))

private theorem readType_traces (q : QualifiedName) :
    (type.read q.text : Step σ Ty).Traces LogLevel.IsSound :=
  read_traces (EntryPoint.type.isSound_note (parse_type q))

private theorem readSimpleType_traces (n : Name) :
    (type.read n.text : Step σ Ty).Traces LogLevel.IsSound := by
  rw [← QualifiedName.text_simple]
  exact readType_traces _

private theorem readText_traces : (type.read "String" : Step σ Ty).Traces LogLevel.IsSound :=
  readSimpleType_traces ⟨"String", by decide⟩

private theorem readClassType_traces (q : QualifiedName) :
    (classType.read q.text : Step σ ClassType).Traces LogLevel.IsSound :=
  read_traces (EntryPoint.classType.isSound_note (parse_classType q))

end Source.Grammar

/-- A remark that is logged on the way. -/
theorem Step.Traces.remarked {α : Type} {level : LogLevel} {text : String} {rest : Step σ α}
    (hlevel : level ≠ .warning) (htext : IsRemark text) (h : rest.Traces LogLevel.IsSound) :
    (Step.record level text >>= fun _ => rest).Traces LogLevel.IsSound :=
  .logged (LogLevel.isSound_of_isRemark hlevel htext) h

/-! ## Names and signatures -/

namespace JavaName

private theorem ofType_traces (wire : String) :
    (ofType wire : Step σ Name).Traces LogLevel.IsSound :=
  Grammar.readName_traces (typeOf wire)

private theorem ofMember_traces (wire : String) (fallback : Name) :
    (ofMember wire fallback.text : Step σ Name).Traces LogLevel.IsSound :=
  Grammar.readName_traces (memberOf wire fallback)

private theorem ofGetter_traces (member : Name) :
    (ofGetter member : Step σ Name).Traces LogLevel.IsSound :=
  Grammar.readName_traces (getterOf member)

end JavaName

private theorem Route.readSignature_traces (route : Route) :
    (route.readSignature : Step σ Signature).Traces LogLevel.IsSound := by
  unfold readSignature
  cases route.body with
  | none => exact .pure
  | some type => exact (Grammar.readName_traces route.bodyName).bind fun _ => .pure

/-! ## Resolution -/

namespace Resolution

private theorem register_traces (wire : String) : (register wire).Traces LogLevel.IsSound := by
  unfold register
  apply Step.Traces.state.bind
  intro index
  apply Step.Traces.guarded .refuse
  apply (JavaName.ofType_traces wire).bind
  intro java
  cases index.owner? java with
  | some previous => exact .refuse
  | none =>
    exact .remarked (by decide) (by simp +decide [String.append_assoc])
      (Step.Traces.onState.bind fun _ => .pure)

private theorem resolve_traces (index : SchemaIndex) (type : TypeRef) :
    (resolve index type : Step σ Ty).Traces LogLevel.IsSound := by
  have hlibrary : ∀ {text : String} (q : QualifiedName), q.text = text →
      (Grammar.type.read text : Step σ Ty).Traces LogLevel.IsSound := by
    rintro _ q rfl
    exact Grammar.readType_traces q
  induction type with
  | string => exact Grammar.readText_traces
  | integer => exact Grammar.readSimpleType_traces PrimitiveType.int.wrapper
  | long => exact Grammar.readSimpleType_traces PrimitiveType.long.wrapper
  | boolean => exact Grammar.readSimpleType_traces PrimitiveType.boolean.wrapper
  | number =>
    exact hlibrary (.ofSegments LibraryName.java [⟨"math", by decide⟩, ⟨"BigDecimal", by decide⟩])
      (by decide +kernel)
  | date =>
    exact hlibrary (.ofSegments LibraryName.java [⟨"time", by decide⟩, ⟨"LocalDate", by decide⟩])
      (by decide +kernel)
  | dateTime =>
    exact hlibrary (.ofSegments LibraryName.java [⟨"time", by decide⟩,
      ⟨"OffsetDateTime", by decide⟩]) (by decide +kernel)
  | ref name =>
    unfold resolve
    cases index.find? name with
    | some java => exact Grammar.readSimpleType_traces java
    | none => exact .refuse
  | array items ih => exact ih.bind fun _ => .pure
  | map values ih => exact Grammar.readText_traces.bind fun _ => ih.bind fun _ => .pure

private theorem routeParams_traces (index : SchemaIndex) (operationId : String) (taken : List Name)
    (params : List EndpointParameter) :
    (routeParams index operationId taken params : Step σ (List RouteParam)).Traces
      LogLevel.IsSound := by
  induction params generalizing taken with
  | nil => exact .pure
  | cons param rest ih =>
    unfold routeParams
    apply (JavaName.ofMember_traces param.name ⟨"param", by decide⟩).bind
    intro term
    apply Step.Traces.guarded .refuse
    exact (resolve_traces index param.type).bind fun _ => (ih _).bind fun _ => .pure

private theorem resolveBody_traces (index : SchemaIndex) (body : Option TypeRef) :
    (resolveBody index body : Step σ (Option Ty)).Traces LogLevel.IsSound := by
  cases body with
  | none => exact .pure
  | some type => exact (resolve_traces index type).bind fun _ => .pure

private theorem resolveResponse_traces (index : SchemaIndex) (endpoint : Endpoint) :
    (resolveResponse index endpoint : Step σ (Option Ty)).Traces LogLevel.IsSound := by
  unfold resolveResponse
  cases endpoint.responses.find? (·.isSuccess) with
  | some response => exact resolveBody_traces index response.body
  | none =>
    -- The one warning of a run names an operation first.
    have hremark : IsRemark
        s!"operation '{endpoint.operationId}' declares no 2xx response; treating it as empty" := by
      simp +decide [String.append_assoc]
    refine .logged ⟨fun _ htext => ?_, hremark.notesNoRefusal⟩ .pure
    have hhead := congrArg (·.toList.head?) htext
    simp +decide [Log.unbalancedPop] at hhead

private theorem extractRoute_traces (index : SchemaIndex) (endpoint : Endpoint) :
    (extractRoute index endpoint : Step σ Route).Traces LogLevel.IsSound := by
  unfold extractRoute
  cases pathFault? endpoint with
  | some fault => exact .stopped
  | none =>
    apply (JavaName.ofMember_traces endpoint.operationId ⟨"operation", by decide⟩).bind
    intro operation
    apply (routeParams_traces index endpoint.operationId [] endpoint.parameters).bind
    intro params
    apply (resolveBody_traces index endpoint.requestBody).bind
    intro body
    apply (resolveResponse_traces index endpoint).bind
    intro response
    have hverb : IsRemark endpoint.method.verb := by cases endpoint.method <;> decide
    exact .remarked (by decide) hverb.append.append.append.append .pure

private theorem extractRoutes_traces (index : SchemaIndex) (seen : List (String × Name))
    (endpoints : List Endpoint) :
    (extractRoutes index seen endpoints : Step σ (List Route)).Traces LogLevel.IsSound := by
  induction endpoints generalizing seen with
  | nil => exact .pure
  | cons endpoint rest ih =>
    unfold extractRoutes
    apply (extractRoute_traces index endpoint).inScope.bind
    intro route
    apply Step.Traces.guarded .refuse
    exact (ih _).bind fun _ => .pure

theorem handler_traces : handler.Traces fun _ => LogLevel.IsSound := by
  intro term
  cases term with
  | indexSchemas schemas =>
    exact (Step.Traces.mapM fun (schema : SchemaDef) _ => register_traces schema.name).bind fun _ =>
      .pure
  | resolveType type isOptional =>
    exact Step.Traces.state.bind fun index => (resolve_traces index type).bind fun _ => .pure
  | extractRoutes endpoints =>
    exact Step.Traces.state.bind fun index =>
      (extractRoutes_traces index [] endpoints).bind fun _ => .pure

end Resolution

/-! ## The types of schemas -/

namespace Model

/-- What may be logged on a property. Its note begins with names on the wire, whatever these are. -/
def PropertyLogs (className propertyName : String) (level : LogLevel) (message : String) : Prop :=
  level.IsSound message ∨ level = .debug ∧
    ∃ type term, message = settledNote className propertyName type term

/-- What an instruction on models may log. -/
def Logs : Term → LogLevel → String → Prop
  | .transformProperty className propertyName _ _ => PropertyLogs className propertyName
  | .renderClass .. => LogLevel.IsSound

private theorem transformProperty_traces (className propertyName : String) (type : Ty)
    (isRequired : Bool) :
    (transformProperty className propertyName type isRequired : Step σ ModelField).Traces
      (PropertyLogs className propertyName) := by
  have hname : (JavaName.ofMember propertyName "field" : Step σ Name).Traces
      (PropertyLogs className propertyName) :=
    (JavaName.ofMember_traces propertyName ⟨"field", by decide⟩).mono fun _ _ => Or.inl
  exact hname.bind fun _ => .logged (.inr ⟨rfl, _, _, rfl⟩) .pure

private theorem renderClass_traces (package : QualifiedName) (name : String)
    (fields : List ModelField)
    (parents : List Ty) :
    (renderClass package name fields parents : Step σ Definition).Traces LogLevel.IsSound := by
  unfold renderClass
  have hgetters : (fields.mapM fun field => JavaName.ofGetter field.term :
      Step σ (List Name)).Traces LogLevel.IsSound :=
    .mapM fun field _ => JavaName.ofGetter_traces field.term
  apply (JavaName.ofType_traces name).bind
  intro className
  cases Naming.firstRepeat? [] (fields.map (·.term)) with
  | some repeated => exact .stopped
  | none =>
    dsimp only
    cases parents.mapM Ty.classType? with
    | none => exact .defect
    | some interfaces =>
      exact hgetters.bind fun _ =>
        .remarked (by decide) (by simp +decide [String.append_assoc]) .pure

theorem handler_traces (package : QualifiedName) : (handler package).Traces Logs := by
  intro term
  cases term with
  | transformProperty className propertyName type isRequired =>
    exact (transformProperty_traces className propertyName type isRequired).bind fun _ => .pure
  | renderClass name fields parents =>
    exact (renderClass_traces package name fields parents).bind fun _ => .pure

end Model

namespace Enumeration

private theorem readConstants_traces (values : List String) :
    (readConstants values : Step σ (List EnumConstant)).Traces LogLevel.IsSound := by
  have hzip := Name.zip_uniqueNames values JavaName.constantOf
  simp only [JavaName.text_constantOf] at hzip
  change Step.Traces _ (List.mapM _ (List.zip _ _))
  rw [hzip, List.mapM_map]
  exact .mapM fun pair _ => (Grammar.readName_traces pair.1).bind fun _ => .pure

private theorem readWords_traces : (readWords : Step σ Words).Traces LogLevel.IsSound := by
  unfold readWords
  apply Grammar.readText_traces.bind
  intro text
  apply (Grammar.readName_traces ⟨"value", by decide⟩).bind
  intro value
  apply (Grammar.readName_traces ⟨"getValue", by decide⟩).bind
  intro getValue
  apply (Grammar.readName_traces ⟨"toString", by decide⟩).bind
  intro toText
  exact (Grammar.readSimpleName_traces ⟨"Override", by decide⟩).bind fun _ => .pure

theorem handler_traces (package : QualifiedName) :
    (handler package).Traces fun _ => LogLevel.IsSound := by
  intro term
  change (render package term.name term.values).Traces _
  unfold render
  apply Step.Traces.guarded .refuse
  apply (JavaName.ofType_traces term.name).bind
  intro enumName
  apply (readConstants_traces term.values).bind
  intro constants
  exact readWords_traces.bind fun _ =>
    .remarked (by decide) (by simp +decide [String.append_assoc]) .pure

end Enumeration

namespace NamedList

theorem handler_traces (package : QualifiedName) :
    (handler package).Traces fun _ => LogLevel.IsSound := by
  have hbase : (Grammar.classType.read "java.util.ArrayList" : Step Unit ClassType).Traces
      LogLevel.IsSound :=
    Grammar.readClassType_traces (LibraryName.javaUtil.child ⟨"ArrayList", by decide⟩)
  intro term
  change (render package term.name term.items).Traces _
  unfold render
  apply Step.Traces.guarded .refuse
  apply (JavaName.ofType_traces term.name).bind
  intro className
  exact hbase.bind fun _ => .remarked (by decide) (by simp +decide) .pure

end NamedList

namespace Union

/-- The remark on a variant begins with a type, which may be any, but has no colon. -/
private theorem notesNoRefusal_variant (variant : Ty) (interfaceName : Name) :
    NotesNoRefusal s!"{variant} is a variant of {interfaceName}" := by
  refine notesNoRefusal_of_not_mem fun hmem => ?_
  change ':' ∈ (canonical variant ++ " is a variant of " ++ interfaceName.text).toList at hmem
  simp only [String.toList_append, List.mem_append] at hmem
  rcases hmem with (hmem | hmem) | hmem
  · exact variant.not_mem_canonical hmem
  · exact absurd hmem (by decide)
  · exact interfaceName.not_mem_text hmem

private theorem readConstants_traces (text : Ty) (interfaceName : Name)
    (variants : List UnionVariant) :
    (readConstants text interfaceName variants : Step σ (List FieldDecl)).Traces
      LogLevel.IsSound := by
  have hzip := Name.zip_uniqueNames variants fun variant => JavaName.constantOf variant.value
  simp only [JavaName.text_constantOf] at hzip
  change Step.Traces _ (List.mapM _ (List.zip _ _))
  rw [hzip, List.mapM_map]
  refine .mapM fun pair _ => (Grammar.readName_traces pair.1).bind fun _ => ?_
  exact .logged ⟨LogLevel.allows_of_ne (by decide), notesNoRefusal_variant _ _⟩ .pure

theorem handler_traces (package : QualifiedName) :
    (handler package).Traces fun _ => LogLevel.IsSound := by
  intro term
  change (render package term.name term.discriminator term.variants).Traces _
  unfold render
  apply Step.Traces.guarded .refuse
  apply (JavaName.ofType_traces term.name).bind
  intro interfaceName
  apply Grammar.readText_traces.bind
  intro text
  apply (readConstants_traces text interfaceName term.variants).bind
  intro constants
  apply (JavaName.ofMember_traces term.discriminator ⟨"type", by decide⟩).bind
  intro member
  exact (JavaName.ofGetter_traces member).bind fun _ =>
    .remarked (by decide) (by simp +decide [String.append_assoc]) .pure

end Union

/-! ## The types of groups -/

namespace Client

private theorem segmentExpr_traces (route : Route) (segment : PathSegment) :
    (segmentExpr route segment : Step σ Expr).Traces LogLevel.IsSound := by
  unfold segmentExpr
  split
  · exact .pure
  · split
    · exact .pure
    · exact .defect

private theorem pathExpr_traces (route : Route) :
    (pathExpr route : Step σ Expr).Traces LogLevel.IsSound :=
  (Step.Traces.mapM fun segment _ => segmentExpr_traces route segment).bind fun _ => .pure

private theorem readWords_traces : (readWords : Step σ Words).Traces LogLevel.IsSound := by
  unfold readWords
  apply (Grammar.readName_traces LibraryName.map.name).bind
  intro map
  apply (Grammar.readName_traces ⟨"ofEntries", by decide⟩).bind
  intro ofEntries
  exact (Grammar.readName_traces ⟨"entry", by decide⟩).bind fun _ => .pure

private theorem responseClass_traces (route : Route) :
    (responseClass route : Step σ Expr).Traces LogLevel.IsSound := by
  unfold responseClass
  cases route.response with
  | some type => exact .pure
  | none => exact (Grammar.readSimpleType_traces ⟨"Void", by decide⟩).bind fun _ => .pure

private theorem method_traces (transport : Name) (client : ClientRoute) :
    (method transport client : Step σ MethodDecl).Traces LogLevel.IsSound := by
  unfold method
  apply client.route.readSignature_traces.bind
  intro signature
  apply (pathExpr_traces client.route).bind
  intro path
  apply readWords_traces.bind
  intro words
  apply (responseClass_traces client.route).bind
  intro response
  exact (Grammar.readName_traces Binding.sendName).bind fun _ =>
    .remarked (by decide) (by simp +decide) .pure

theorem handler_traces (package : QualifiedName) (suffix : String) :
    (handler package suffix).Traces fun _ => LogLevel.IsSound := by
  intro term
  change (render package suffix term.group term.routes term.imports).Traces _
  unfold render
  apply (JavaName.ofType_traces s!"{term.group} {suffix}").bind
  intro className
  apply (Grammar.readSimpleType_traces Binding.transportTypeName).bind
  intro transportType
  apply (Grammar.readName_traces transportName).bind
  intro transport
  exact (Step.Traces.mapM fun client _ => method_traces transport client).bind fun _ =>
    .remarked (by decide) (by simp +decide [String.append_assoc]) .pure

end Client

namespace Server

private theorem method_traces (server : ServerRoute) :
    (method server : Step σ MethodDecl).Traces LogLevel.IsSound := by
  unfold method
  apply Step.Traces.guarded .defect
  exact server.route.readSignature_traces.bind fun _ => .pure

theorem handler_traces (package : QualifiedName) (suffix : String) :
    (handler package suffix).Traces fun _ => LogLevel.IsSound := by
  intro term
  change (render package suffix term.group term.routes term.imports).Traces _
  unfold render
  apply (JavaName.ofType_traces s!"{term.group} {suffix}").bind
  intro interfaceName
  exact (Step.Traces.mapM fun server _ => method_traces server).bind fun _ =>
    .remarked (by decide) (by simp +decide [String.append_assoc]) .pure

end Server

/-! ## The framework -/

namespace Binding

private theorem readVoid_traces : (Grammar.type.read "Void" : Step σ Ty).Traces LogLevel.IsSound :=
  Grammar.readSimpleType_traces ⟨"Void", by decide⟩

private theorem readFuture_traces (framework : Framework) :
    (Grammar.classType.read (futureClass framework) : Step σ ClassType).Traces
      LogLevel.IsSound := by
  rw [← text_futureName]
  exact Grammar.readClassType_traces _

private theorem responseType_traces (framework : Framework) (body : Option Ty) :
    (responseType framework body : Step σ Ty).Traces LogLevel.IsSound := by
  unfold responseType
  cases framework with
  | jdkHttp =>
    cases body with
    | some type =>
      exact Step.Traces.pure.bind fun _ => (readFuture_traces .jdkHttp).bind fun _ => .pure
    | none =>
      exact readVoid_traces.bind fun _ => (readFuture_traces .jdkHttp).bind fun _ => .pure
  | jaxrs =>
    cases body with
    | some type => exact Step.Traces.pure.bind fun _ => .pure
    | none => exact readVoid_traces.bind fun _ => .pure

private theorem routeAnnotations_traces (framework : Framework) (method : HttpMethod)
    (path : String) :
    (routeAnnotations framework method path : Step σ (List AnnotationUse)).Traces
      LogLevel.IsSound := by
  have hverb : (Grammar.qualifiedName.read method.verb : Step σ QualifiedName).Traces
      LogLevel.IsSound := by cases method <;> exact Grammar.readSimpleName_traces ⟨_, by decide⟩
  cases framework with
  | jdkHttp => exact .pure
  | jaxrs =>
    exact hverb.bind fun _ =>
      (Grammar.readSimpleName_traces ⟨"Path", by decide⟩).bind fun _ => .pure

private theorem paramAnnotations_traces (framework : Framework) (location : ParamLocation)
    (name : String) :
    (paramAnnotations framework location name : Step σ (List AnnotationUse)).Traces
      LogLevel.IsSound := by
  have hclass : (Grammar.qualifiedName.read (paramAnnotationClass location) :
      Step σ QualifiedName).Traces LogLevel.IsSound := by
    cases location <;> exact Grammar.readSimpleName_traces ⟨_, by decide⟩
  cases framework with
  | jdkHttp => exact .pure
  | jaxrs => exact hclass.bind fun _ => .pure

private theorem readTransport_traces (package : QualifiedName) (framework : Framework) :
    (readTransport package framework : Step σ (List Definition)).Traces LogLevel.IsSound := by
  unfold readTransport
  apply (Grammar.read_traces (Grammar.EntryPoint.compilationUnit.isSound_note
    (parse_transportSource framework))).bind
  intro file
  split
  · exact .defect
  · exact .remarked (by decide) (by simp +decide) .pure

private theorem readImports_traces (framework : Framework) (side : Side) :
    ((importTargets framework side).mapM Grammar.rawImport.read : Step σ (List Import)).Traces
      LogLevel.IsSound := by
  refine .mapM fun target htarget => ?_
  obtain ⟨found, hparse⟩ : ∃ found, Grammar.rawImport.parse target = .ok found := by
    cases side with
    | client =>
      obtain rfl := List.mem_singleton.1 htarget
      exact ⟨.ofType LibraryName.map, by decide +kernel⟩
    | server =>
      cases framework with
      | jdkHttp => cases htarget
      | jaxrs =>
        obtain rfl := List.mem_singleton.1 htarget
        exact ⟨⟨.ofSegments ⟨"javax", by decide⟩ [⟨"ws", by decide⟩, ⟨"rs", by decide⟩], false,
          true⟩, by decide +kernel⟩
  exact Grammar.read_traces (Grammar.EntryPoint.rawImport.isSound_note hparse)

theorem handler_traces (package : QualifiedName) (framework : Framework) :
    (handler package framework).Traces fun _ => LogLevel.IsSound := by
  intro term
  cases term with
  | imports side => exact (readImports_traces framework side).bind fun _ => .pure
  | responseType body => exact (responseType_traces framework body).bind fun _ => .pure
  | routeAnnotations method path =>
    exact (routeAnnotations_traces framework method path).bind fun _ => .pure
  | paramAnnotations location name =>
    exact (paramAnnotations_traces framework location name).bind fun _ => .pure
  | transportSupport => exact (readTransport_traces package framework).bind fun _ => .pure

end Binding

/-! ## All concerns -/

/-- What an instruction of any concern may log. -/
def Concern.Logs : (Vocabulary.all concerns).Term → LogLevel → String → Prop
  | .inr (.inl term) => Model.Logs term
  | _ => LogLevel.IsSound

/-- Together the handlers log what each of them may log. -/
theorem handlers_traces (package : QualifiedName) (config : GeneratorConfig) :
    (handlers package config).combined.Traces Concern.Logs :=
  .both Resolution.handler_traces <|
  .both (Model.handler_traces package) <|
  .both (Enumeration.handler_traces package) <|
  .both (NamedList.handler_traces package) <|
  .both (Union.handler_traces package) <|
  .both (Client.handler_traces package config.clientSuffix) <|
  .both (Server.handler_traces package config.serverSuffix) <|
  .both (Binding.handler_traces package config.framework) .forEmpty

end Stubwright
