import Stubwright.Proofs.Concern.GroupTypes
import Stubwright.Proofs.Concern.Support

/-!
# Clients and servers are read back

A method of a client or server declares the types of its route and mentions wire names only in text
literals. Its file is read back whatever those names are, as long as the types of the routes leave
room for the future that a method returns.

## Main definitions

* `ClientRoute.TypesWithin`, `ServerRoute.ReadsBack` — routes that a client or server can offer

## Main results

* `Binding.isClassWithin_returnType`, `Binding.readsBack_routeUses`, … — the pieces of a framework
* `Client.readsBack_classOf`, `Server.readsBack_interfaceOf` — the files of a group
-/

namespace Stubwright

open Source

variable {depth : Nat}

/-- A route whose types may be declared, with a type that a client method may return. -/
structure ClientRoute.TypesWithin (depth : Nat) (client : ClientRoute) : Prop where
  route : client.route.TypesWithin depth
  returnType : client.returnType.nesting ≤ nestingLimit

/-- A route whose server method is read back, with the annotations on it and on its parameters. -/
structure ServerRoute.ReadsBack (depth : Nat) (server : ServerRoute) : Prop where
  route : server.route.TypesWithin depth
  returnType : server.returnType.nesting ≤ nestingLimit
  annotations : ∀ use ∈ server.annotations, use.ReadsBack
  paramAnnotations : ∀ uses ∈ server.paramAnnotations, ∀ use ∈ uses, use.ReadsBack

/-! ## The pieces of a framework -/

namespace Binding

theorem isClassWithin_getD_voidType {body : Option Ty}
    (h : ∀ type ∈ body, type.IsClassWithin depth) :
    (body.getD voidType).IsClassWithin depth := by
  cases body with
  | none => exact (Ty.isClassWithin_plain _).mono (Nat.zero_le _)
  | some type => exact h type rfl

/-- A method returns a future, which nests one level deeper than its content. -/
theorem isClassWithin_returnType (framework : Framework) {body : Option Ty}
    (h : ∀ type ∈ body, type.IsClassWithin depth) :
    (returnType framework body).IsClassWithin (depth + 1) :=
  Ty.isClassWithin_library (List.forall_mem_singleton.2 (isClassWithin_getD_voidType h))

/-- The annotations of a method are read back from their text. -/
theorem readsBack_routeUses (framework : Framework) (method : HttpMethod) (path : String) :
    ∀ use ∈ routeUses framework method path, use.ReadsBack := by
  cases framework with
  | jdkHttp => exact nofun
  | jaxrs =>
    exact List.forall_mem_cons.2 ⟨AnnotationUse.readsBack_plain _,
      List.forall_mem_singleton.2 (AnnotationUse.readsBack_text _ path)⟩

/-- The annotations of a parameter are read back from their text. -/
theorem readsBack_paramUses (framework : Framework) (location : ParamLocation) (name : String) :
    ∀ use ∈ paramUses framework location name, use.ReadsBack := by
  cases framework with
  | jdkHttp => exact nofun
  | jaxrs => exact List.forall_mem_singleton.2 (AnnotationUse.readsBack_text _ name)

/-- No import is static, so each can be written. -/
theorem isWritable_importsOf (framework : Framework) (side : Side) :
    ∀ i ∈ importsOf framework side, i.IsWritable := by
  cases side with
  | client => exact List.forall_mem_singleton.2 nofun
  | server =>
    cases framework with
    | jdkHttp => exact nofun
    | jaxrs => exact List.forall_mem_singleton.2 nofun

end Binding

/-! ## Signatures -/

/-- The parameters of a signature have the types of the route. -/
theorem Route.readsBack_signature {route : Route} (h : route.TypesWithin depth) :
    ∀ param ∈ route.signature.params, param.ReadsBack := by
  have hdeclared : ∀ param ∈ route.params.map RouteParam.toParameter, param.ReadsBack :=
    List.forall_mem_map.2 fun param hparam =>
      Parameter.readsBack_plain (h.params param hparam) param.term
  unfold signature
  cases hbody : route.body with
  | none => exact hdeclared
  | some type =>
    exact List.forall_mem_append.2 ⟨hdeclared, List.forall_mem_singleton.2
      (Parameter.readsBack_plain (h.body type hbody) _)⟩

/-! ## Clients -/

namespace Client

/-- A segment is a text or a parameter, and neither needs parentheses in a sum. -/
theorem spelledWithin_segmentOf (route : Route) (segment : PathSegment) :
    (segmentOf route segment).SpelledWithin 0 ∧ 6 ≤ (segmentOf route segment).precedence := by
  cases segment with
  | literal text => exact ⟨.text text, Nat.le_succ 6⟩
  | param name =>
    rw [segmentOf]
    cases route.params.find? (·.name = name) with
    | none => exact ⟨.null, Nat.le_succ 6⟩
    | some param => exact ⟨.name param.term, Nat.le_succ 6⟩

/-- Each parameter is an entry, which is an argument of the map of entries. -/
theorem spelledWithin_entriesExpr (words : Words) (route : Route) (location : ParamLocation) :
    (entriesExpr words route location).SpelledWithin 2 := by
  refine .callOn words.ofEntries (.name words.map) (Nat.le_refl 7) fun entry hentry => ?_
  obtain ⟨param, -, rfl⟩ := List.mem_map.1 hentry
  refine .callOn words.entry (.name words.map) (Nat.le_refl 7) ?_
  exact List.forall_mem_cons.2 ⟨.text param.name, List.forall_mem_singleton.2 (.name param.term)⟩

theorem spelledWithin_requestOf {route : Route} (h : route.TypesWithin depth) :
    (requestOf route).SpelledWithin 3 := by
  have hpath : (Expr.concat (route.segments.map (segmentOf route))).SpelledWithin 0 :=
    .concat (List.forall_mem_map.2 fun segment _ => spelledWithin_segmentOf route segment)
  have hbody : ((route.signature.body.map Expr.name).getD .null).SpelledWithin 2 := by
    cases route.signature.body with
    | none => exact .null
    | some body => exact .name body
  -- The maps of entries nest deepest of all arguments.
  refine .callOn Binding.sendName (.selfField transportName) (Nat.le_refl 7) fun arg harg => ?_
  simp only [List.mem_cons, List.not_mem_nil, or_false] at harg
  rcases harg with rfl | rfl | rfl | rfl | rfl | rfl
  · exact .text route.method.verb
  · exact hpath.mono (Nat.zero_le 2)
  · exact spelledWithin_entriesExpr methodWords route .query
  · exact spelledWithin_entriesExpr methodWords route .header
  · exact hbody
  · exact .classOf (Binding.isClassWithin_getD_voidType h.response)

theorem readsBack_methodOf {client : ClientRoute} (h : client.TypesWithin depth) (owner : Name) :
    (Member.method (methodOf client)).ReadsBack owner :=
  Member.readsBack_method h.returnType nofun (Route.readsBack_signature h.route)
    (List.forall_mem_singleton.2
      (Stmt.readsBack_returns ((spelledWithin_requestOf h.route).mono (by decide))))

theorem readsBack_classDecl {name transport : Name} {transportType : Ty}
    {methods : List MethodDecl} (htype : transportType.IsVariable)
    (hmethods : ∀ decl ∈ methods, (Member.method decl).ReadsBack name) :
    (classDecl name transportType transport methods).ReadsBack := by
  refine TypeDecl.readsBack_publicType nofun (List.forall_mem_cons.2 ⟨?_,
    List.forall_mem_cons.2 ⟨?_, List.forall_mem_map.2 hmethods⟩⟩)
  · exact Member.readsBack_field htype nofun nofun
  · exact Member.readsBack_constructor rfl nofun
      (List.forall_mem_singleton.2 (Parameter.readsBack_plain htype transport))
      (List.forall_mem_singleton.2 (Model.readsBack_storeParameter transport))

/-- A client is read back when the types of its routes nest no deeper than the limit allows. -/
theorem readsBack_classOf (package : QualifiedName) (suffix group : String)
    {routes : List ClientRoute} {imports : List Import}
    (hroutes : ∀ client ∈ routes, client.TypesWithin depth)
    (himports : ∀ i ∈ imports, i.IsWritable) :
    (classOf package suffix group routes imports).ReadsBack :=
  Definition.readsBack_ofDecl himports (readsBack_classDecl (Ty.isVariable_plain _)
    (List.forall_mem_map.2 fun client hclient => readsBack_methodOf (hroutes client hclient) _))

end Client

/-! ## Servers -/

namespace Server

/-- Putting annotations on parameters leaves their types as they are. -/
theorem readsBack_annotate {params : List Parameter} {annotations : List (List AnnotationUse)}
    (hparams : ∀ param ∈ params, param.ReadsBack)
    (hannotations : ∀ uses ∈ annotations, ∀ use ∈ uses, use.ReadsBack) :
    ∀ param ∈ annotate params annotations, param.ReadsBack := by
  fun_induction annotate params annotations with
  | case1 => exact nofun
  | case2 params _ => exact hparams
  | case3 param params uses rest ih =>
    obtain ⟨hparam, hrest⟩ := List.forall_mem_cons.1 hparams
    obtain ⟨huses, hothers⟩ := List.forall_mem_cons.1 hannotations
    exact List.forall_mem_cons.2 ⟨⟨hparam.type, huses⟩, ih hrest hothers⟩

theorem readsBack_methodOf {server : ServerRoute} (h : server.ReadsBack depth) (owner : Name) :
    (Member.method (methodOf server)).ReadsBack owner :=
  Member.readsBack_method h.returnType h.annotations
    (readsBack_annotate (Route.readsBack_signature h.route) h.paramAnnotations) nofun

/-- So is the interface of a server. -/
theorem readsBack_interfaceOf (package : QualifiedName) (suffix group : String)
    {routes : List ServerRoute} {imports : List Import}
    (hroutes : ∀ server ∈ routes, server.ReadsBack depth)
    (himports : ∀ i ∈ imports, i.IsWritable) :
    (interfaceOf package suffix group routes imports).ReadsBack :=
  Definition.readsBack_ofDecl himports (TypeDecl.readsBack_publicType nofun
    (List.forall_mem_map.2 (List.forall_mem_map.2 fun server hserver =>
      readsBack_methodOf (hroutes server hserver) _)))

end Server

end Stubwright
