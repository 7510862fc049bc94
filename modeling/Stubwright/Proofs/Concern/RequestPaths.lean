import Mathlib.Data.List.Chain
import Stubwright.Proofs.Concern.Extraction
import Stubwright.Proofs.Concern.GroupTypes

/-!
# The paths of requests

A client puts the path of a request together while it runs: it adds up the literal texts of the path
and the parameters that stand between them. The path that it sends is the one of the description
with each placeholder replaced by the value of its parameter.

Sums are told as the language has them: a sum is a text as soon as one of its operands is, and
operands are added up from the left. An accepted path begins with a slash, so the leftmost operand
is always a text.

## Main definitions

* `Source.Value`, `Source.Expr.eval?` — values, and what sums of texts and parameters come to
* `PathSegment.fill`, `expandPlaceholders` — segments and paths with the parameters put in
* `CutsInto` — how a path is cut into segments
* `Route.FillsWith` — the texts that the values of the path parameters put into a path

## Main results

* `Source.Expr.eval?_concat` — a concatenation that begins with a text comes to a text
* `CutsInto.join_fill` — filled segments are the filled path
* `Resolution.request_path_of_extractRoute` — the path of an accepted endpoint, as it is sent
-/

namespace Stubwright

/-! ## Sums of texts -/

namespace Source

/-- A value while a method runs: a text, or another value with the text that stands for it where it
is added to a text. -/
inductive Value where
  | text (value : String)
  | other (display : String)
deriving DecidableEq, Repr

namespace Value

/-- The text that stands for a value in a sum. -/
def shown : Value → String
  | text value => value
  | other display => display

/-- The sum of two values, if one of them is a text. Other values are not put side by side. -/
def add? : Value → Value → Option Value
  | other _, other _ => none
  | left, right => some (text (left.shown ++ right.shown))

@[simp] theorem add?_text (left : String) (right : Value) :
    (text left).add? right = some (text (left ++ right.shown)) := by
  cases right <;> rfl

end Value

namespace Expr

/-- What an expression of texts, names and sums comes to, where `values` holds what the names stand
for. -/
def eval? (values : Name → Value) : Expr → Option Value
  | .literal (.text value) => some (.text value)
  | .name used => some (values used)
  | .binary .add left right => do (← left.eval? values).add? (← right.eval? values)
  | _ => none

variable {values : Name → Value} {ι : Type} {items : List ι} {expr : ι → Expr} {shown : ι → String}

theorem eval?_foldl_add {left : Expr} {text : String}
    (hleft : left.eval? values = some (.text text))
    (h : ∀ item ∈ items, ((expr item).eval? values).map Value.shown = some (shown item)) :
    ((items.map expr).foldl (.binary .add) left).eval? values =
      some (.text (text ++ String.join (items.map shown))) := by
  induction items generalizing left text with
  | nil => simpa using hleft
  | cons item rest ih =>
    obtain ⟨hitem, hrest⟩ := List.forall_mem_cons.1 h
    obtain ⟨value, hvalue, hshown⟩ := Option.map_eq_some_iff.1 hitem
    -- The sum so far is a text, so whatever comes next is added to it as a text.
    have hsum : (binary .add left (expr item)).eval? values =
        some (.text (text ++ shown item)) := by
      simp [eval?, hleft, hvalue, hshown]
    rw [List.map_cons, List.foldl_cons, ih hsum hrest, List.map_cons, String.join_cons,
      String.append_assoc]

/-- Where the first part is a text, the parts are put side by side. -/
theorem eval?_concat {first : String}
    (h : ∀ item ∈ items, ((expr item).eval? values).map Value.shown = some (shown item)) :
    (concat (.text first :: items.map expr)).eval? values =
      some (.text (first ++ String.join (items.map shown))) :=
  eval?_foldl_add rfl h

end Expr

end Source

open Source

/-! ## Filled paths -/

/-- The text of a segment when parameters are filled in: literal text stays. -/
def PathSegment.fill (filling : String → String) : PathSegment → String
  | literal text => text
  | param name => filling name

/-- A path with its well-formed placeholders replaced, where the first `skip` characters belong to a
placeholder that was replaced. -/
def expandPlaceholders (filling : String → String) (skip : Nat) : List Char → List Char
  | [] => []
  | c :: rest =>
    match skip with
    | skip + 1 => expandPlaceholders filling skip rest
    | 0 =>
      match if c = '\x7b' then placeholder? rest else none with
      | some name =>
        (filling (String.ofList name)).toList ++ expandPlaceholders filling (name.length + 1) rest
      | none => c :: expandPlaceholders filling 0 rest

/-- A path with every well-formed placeholder replaced by the text for its name. -/
def expandPath (filling : String → String) (path : String) : String :=
  String.ofList (expandPlaceholders filling 0 path.toList)

/-- A placeholder between its braces. -/
def bracedName (name : String) : String := "\x7b" ++ name ++ "\x7d"

section Expansion

variable {filling : String → String}

theorem expandPlaceholders_length (passed rest : List Char) :
    expandPlaceholders filling passed.length (passed ++ rest) =
      expandPlaceholders filling 0 rest := by
  induction passed with
  | nil => rfl
  | cons c passed ih => exact ih

theorem expandPlaceholders_placeholder {name : List Char} (h : isPlaceholderName name = true)
    (after : List Char) : expandPlaceholders filling 0 ('\x7b' :: (name ++ '\x7d' :: after)) =
      (filling (String.ofList name)).toList ++ expandPlaceholders filling 0 after := by
  have hname : placeholder? (name ++ '\x7d' :: after) = some name :=
    placeholder?_eq_some_iff.2 ⟨h, after, rfl⟩
  have hexpand : expandPlaceholders filling (name.length + 1) (name ++ '\x7d' :: after) =
      expandPlaceholders filling 0 after := by
    simpa using expandPlaceholders_length (name ++ ['\x7d']) after
  simp [expandPlaceholders, hname, hexpand]

theorem expandPlaceholders_stray {c : Char} {rest : List Char}
    (h : c = '\x7b' → placeholder? rest = none) :
    expandPlaceholders filling 0 (c :: rest) = c :: expandPlaceholders filling 0 rest := by
  by_cases hc : c = '\x7b'
  · simp [expandPlaceholders, hc, h hc]
  · simp [expandPlaceholders, hc]

/-- A text in front of the first brace stays as it is. -/
theorem expandPlaceholders_append {literal : List Char} (h : ∀ c ∈ literal, c ≠ '\x7b')
    (rest : List Char) : expandPlaceholders filling 0 (literal ++ rest) =
      literal ++ expandPlaceholders filling 0 rest := by
  induction literal with
  | nil => rfl
  | cons c literal ih =>
    obtain ⟨hc, hliteral⟩ := List.forall_mem_cons.1 h
    rw [List.cons_append, expandPlaceholders_stray fun heq => absurd heq hc, ih hliteral,
      List.cons_append]

/-- Placeholders that are replaced by themselves leave the path as it is. -/
theorem expandPath_bracedName (path : String) : expandPath bracedName path = path := by
  have hexpand (cs : List Char) : expandPlaceholders bracedName 0 cs = cs := by
    induction cs using placeholder_induction with
    | nil => rfl
    | placeholder name after hname ih => simp [expandPlaceholders_placeholder hname, ih, bracedName]
    | stray c rest hstray ih => rw [expandPlaceholders_stray hstray, ih]
  rw [expandPath, hexpand, String.ofList_toList]

end Expansion

/-! ## Cutting a path -/

theorem PathSegment.mem_ofText {literal : List Char} {segment : PathSegment} :
    segment ∈ ofText literal ↔ literal ≠ [] ∧ segment = .literal (String.ofList literal) := by
  cases literal <;> simp [ofText]

/-- A character that is no brace. -/
def IsBraceless (c : Char) : Prop := c ≠ '\x7b' ∧ c ≠ '\x7d'

/-- How a path is cut into segments: at each placeholder, with the text in front of it as a segment
unless it is empty. -/
inductive CutsInto : List Char → List PathSegment → Prop where
  | text {literal : List Char} : (∀ c ∈ literal, IsBraceless c) →
      CutsInto literal (PathSegment.ofText literal)
  | param {literal name rest : List Char} {segments : List PathSegment} :
      (∀ c ∈ literal, IsBraceless c) → isPlaceholderName name = true → CutsInto rest segments →
      CutsInto (literal ++ '\x7b' :: (name ++ '\x7d' :: rest))
        (PathSegment.ofText literal ++ .param (String.ofList name) :: segments)

/-- A template is cut at its placeholders, behind whatever literal text was read before it. -/
theorem PathTemplate.cutsInto {cs : List Char} {names : List String} (h : PathTemplate cs names)
    {literal : List Char} (hliteral : ∀ c ∈ literal, IsBraceless c) :
    CutsInto (literal ++ cs) (pathSegmentsFrom literal none cs) := by
  induction h generalizing literal with
  | nil =>
    rw [List.append_nil]
    exact .text hliteral
  | @char c rest names hopen hclose _ ih =>
    rw [pathSegmentsFrom, if_neg hopen, List.append_cons]
    refine ih (List.forall_mem_append.2 ⟨hliteral, ?_⟩)
    simpa using ⟨hopen, hclose⟩
  | @placeholder name rest names hname _ ih =>
    have hclosed : ∀ c ∈ name, c ≠ '\x7d' :=
      fun c hc => (ne_brace_of_mem_isPlaceholderName hname hc).2
    rw [pathSegmentsFrom, if_pos rfl, pathSegmentsFrom_close literal [] name rest hclosed,
      List.nil_append]
    exact .param hliteral hname (ih (List.forall_mem_nil _))

namespace CutsInto

variable {cs : List Char} {segments : List PathSegment}

/-- The literal segments are not empty and have no braces. -/
theorem literal_ne (h : CutsInto cs segments) {text : String} (htext : .literal text ∈ segments) :
    text ≠ "" ∧ ∀ c ∈ text.toList, IsBraceless c := by
  have hofText {literal : List Char} (hliteral : ∀ c ∈ literal, IsBraceless c)
      (hmem : .literal text ∈ PathSegment.ofText literal) :
      text ≠ "" ∧ ∀ c ∈ text.toList, IsBraceless c := by
    obtain ⟨hne, heq⟩ := PathSegment.mem_ofText.1 hmem
    obtain rfl := PathSegment.literal.inj heq
    exact ⟨by simpa using hne, by simpa using hliteral⟩
  induction h with
  | text hliteral => exact hofText hliteral htext
  | param hliteral _ _ ih =>
    rcases List.mem_append.1 htext with hfirst | hrest
    · exact hofText hliteral hfirst
    · exact ih ((List.mem_cons.1 hrest).resolve_left nofun)

/-- Of two segments side by side, one is a parameter. -/
theorem isChain (h : CutsInto cs segments) :
    segments.IsChain fun left right => left.paramName?.isSome ∨ right.paramName?.isSome := by
  induction h with
  | @text literal _ => cases literal <;> simp [PathSegment.ofText]
  | @param literal name rest segments _ _ _ ih =>
    have hrest : (PathSegment.param (String.ofList name) :: segments).IsChain
        fun left right => left.paramName?.isSome ∨ right.paramName?.isSome :=
      List.isChain_cons.2 ⟨fun _ _ => .inl rfl, ih⟩
    cases literal with
    | nil => exact hrest
    | cons c literal => exact List.isChain_cons_cons.2 ⟨.inr rfl, hrest⟩

/-- The segments with the parameters filled in are the path with its placeholders replaced. -/
theorem join_fill (h : CutsInto cs segments) (filling : String → String) :
    String.join (segments.map (PathSegment.fill filling)) =
      String.ofList (expandPlaceholders filling 0 cs) := by
  have hofText (literal : List Char) :
      String.join ((PathSegment.ofText literal).map (PathSegment.fill filling)) =
        String.ofList literal := by
    cases literal <;> simp [PathSegment.ofText, PathSegment.fill]
  induction h with
  | @text literal hliteral =>
    have hkept : expandPlaceholders filling 0 (literal ++ []) = literal ++ [] :=
      expandPlaceholders_append (fun c hc => (hliteral c hc).1) []
    rw [List.append_nil] at hkept
    rw [hofText, hkept]
  | @param literal name rest segments hliteral hname _ ih =>
    rw [expandPlaceholders_append fun c hc => (hliteral c hc).1,
      expandPlaceholders_placeholder hname, List.map_append, String.join_append, hofText,
      List.map_cons, String.join_cons, ih]
    simp [PathSegment.fill]

/-- A path that begins with a slash is cut into segments the first of which is literal. -/
theorem exists_literal (h : CutsInto cs segments) (hslash : cs.head? = some '/') :
    ∃ first rest, segments = .literal first :: rest := by
  cases h with
  | text _ =>
    cases cs with
    | nil => cases hslash
    | cons c literal => exact ⟨_, _, rfl⟩
  | @param literal name rest segments _ _ _ =>
    cases literal with
    | nil => cases hslash
    | cons c literal => exact ⟨_, _, rfl⟩

end CutsInto

/-! ## Accepted endpoints -/

/-- The texts that fill a path are those of the values of its parameters: what is put in for the
wire name of a path parameter stands for the value that its Java name has. -/
def Route.FillsWith (route : Route) (values : Name → Value) (filling : String → String) : Prop :=
  ∀ param ∈ route.params, param.location = .path →
    filling param.name = (values param.term).shown

namespace Endpoint.IsAccepted

variable {wires : List String} {endpoint : Endpoint}

/-- The path of an accepted endpoint is a template of the placeholders that are matched. -/
theorem template (h : endpoint.IsAccepted wires) :
    PathTemplate endpoint.path.toList (placeholders endpoint.path) := by
  obtain ⟨-, names, htemplate, -⟩ := Resolution.pathFault?_eq_none_iff.1 h.path
  rwa [(pathTemplate_iff.1 htemplate).1]

/-- The path of an accepted endpoint is cut at its placeholders. -/
theorem cutsInto (h : endpoint.IsAccepted wires) :
    CutsInto endpoint.path.toList endpoint.route.segments :=
  h.template.cutsInto (List.forall_mem_nil _)

/-- The segments of the path stand for the placeholders that are matched, from the left. -/
theorem paramNames_segments (h : endpoint.IsAccepted wires) :
    paramNames endpoint.route.segments = placeholders endpoint.path :=
  pathSegments_paramNames fun c hc => ((pathTemplate_iff.1 h.template).2 c hc).1

/-- Parameters with different wire names only have different Java names, so of those that are
declared just one has the name of a given one. -/
theorem filter_name (h : endpoint.IsAccepted wires) {param : EndpointParameter}
    (hparam : param ∈ endpoint.parameters) :
    endpoint.parameters.filter (·.name = param.name) = [param] := by
  have hnames : (endpoint.parameters.map (·.name)).Nodup := by
    -- A repeated wire name would be a repeated Java name, and these are checked.
    refine .of_map (fun name => JavaName.memberOf name ⟨"param", by decide⟩) ?_
    rw [List.map_map]
    exact h.distinct
  exact Naming.filter_eq_singleton hnames hparam

/-- The expression for a segment shows the text that the segment is filled with. -/
theorem shown_segmentOf (h : endpoint.IsAccepted wires) {values : Name → Value}
    {filling : String → String} (hfilling : endpoint.route.FillsWith values filling)
    {segment : PathSegment} (hsegment : segment ∈ endpoint.route.segments) :
    ((Client.segmentOf endpoint.route segment).eval? values).map Value.shown =
      some (segment.fill filling) := by
  cases segment with
  | literal text => rfl
  | param name =>
    obtain ⟨param, hparam, hlocation, rfl⟩ := Resolution.exists_param_of_pathFault? h.path hsegment
    have hfind : endpoint.route.params.find? (·.name = param.name) = some param.route := by
      rw [← List.head?_filter, Endpoint.route, List.filter_map]
      exact congrArg (fun found => (found.map EndpointParameter.route).head?) (h.filter_name hparam)
    have hfill : filling param.name = (values param.term).shown :=
      hfilling param.route (List.mem_map_of_mem hparam) hlocation
    rw [Client.segmentOf, hfind]
    exact congrArg some hfill.symm

/-- What a client sends as the path of an accepted endpoint is the path with its placeholders
replaced by the values of the path parameters. -/
theorem eval?_path (h : endpoint.IsAccepted wires) {values : Name → Value}
    {filling : String → String} (hfilling : endpoint.route.FillsWith values filling) :
    (Expr.concat (endpoint.route.segments.map (Client.segmentOf endpoint.route))).eval? values =
      some (.text (expandPath filling endpoint.path)) := by
  -- The slash makes the leftmost operand a text, which all others are added to one by one.
  have hslash := (Resolution.pathFault?_eq_none_iff.1 h.path).1
  obtain ⟨first, rest, hsegments⟩ := h.cutsInto.exists_literal hslash
  have hshown (segment : PathSegment) (hsegment : segment ∈ endpoint.route.segments) :
      ((Client.segmentOf endpoint.route segment).eval? values).map Value.shown =
        some (segment.fill filling) := h.shown_segmentOf hfilling hsegment
  have hjoin := h.cutsInto.join_fill filling
  rw [hsegments] at hshown hjoin ⊢
  rw [List.map_cons, String.join_cons] at hjoin
  rw [expandPath, ← hjoin]
  exact Expr.eval?_concat (List.forall_mem_cons.1 hshown).2

end Endpoint.IsAccepted

namespace Resolution

/-- An endpoint has a route when it is accepted with the schemas that are registered. -/
theorem result_extractRoute_eq_ok_iff {σ : Type} {lists : List (List SchemaDef)}
    {endpoint : Endpoint} {before log : Log} {state : σ} {route : Route} :
    ((extractRoute (SchemaIndex.after lists before) endpoint).outcome log state).1.result =
        .ok route ↔
      endpoint.IsAccepted (SchemaIndex.after lists before).wires ∧ route = endpoint.route := by
  have hdecides : (extractRoute (.of (SchemaIndex.after lists before).wires) endpoint).Decides state
      _ _ _ := extractRoute_decides endpoint
  rw [← SchemaIndex.isNamed_after lists before] at hdecides
  exact hdecides.result_eq_ok_iff

/-- Whatever schemas are registered, the route of an endpoint reads its path as the endpoint was
checked. Its segments stand for the placeholders that are matched, from the left; its literal
segments are not empty, have no braces and never stand side by side; written out again they are the
path; and each parameter among them is declared once, in the path. A client can always be written
for the route, and the path that it sends is the path of the endpoint with every placeholder
replaced by the value of its parameter. -/
theorem request_path_of_extractRoute {σ : Type} (lists : List (List SchemaDef))
    (endpoint : Endpoint) (before log : Log) (state : σ) {route : Route}
    (h : ((extractRoute (SchemaIndex.after lists before) endpoint).outcome log state).1.result =
      .ok route) :
    paramNames route.segments = placeholders endpoint.path ∧
    (∀ text, .literal text ∈ route.segments →
      text ≠ "" ∧ ∀ c ∈ text.toList, c ≠ '\x7b' ∧ c ≠ '\x7d') ∧
    (route.segments.IsChain fun left right =>
      left.paramName?.isSome ∨ right.paramName?.isSome) ∧
    String.join (route.segments.map (PathSegment.fill bracedName)) = endpoint.path ∧
    (∀ name, .param name ∈ route.segments →
      (endpoint.parameters.filter (·.name = name)).map (·.location) = [.path]) ∧
    ∀ (returnType : Ty) (earlier : Log), ∃ method path rest,
      ((Client.method Client.transportName ⟨route, returnType⟩).outcome earlier state).1.result =
        .ok method ∧
      method.body = some [.returns (some (.callOn (.selfField Client.transportName)
        Binding.sendName (.text route.method.verb :: path :: rest)))] ∧
      ∀ (values : Name → Value) (filling : String → String), route.FillsWith values filling →
        path.eval? values = some (.text (expandPath filling endpoint.path)) := by
  obtain ⟨haccepted, rfl⟩ := result_extractRoute_eq_ok_iff.1 h
  have hcuts := haccepted.cutsInto
  refine ⟨haccepted.paramNames_segments, fun text => hcuts.literal_ne, hcuts.isChain, ?_, ?_, ?_⟩
  · exact (hcuts.join_fill bracedName).trans (expandPath_bracedName endpoint.path)
  · intro name hname
    obtain ⟨param, hparam, hlocation, rfl⟩ := exists_param_of_pathFault? haccepted.path hname
    rw [haccepted.filter_name hparam, List.map_singleton, hlocation]
  · intro returnType earlier
    have hmethod : (Client.method Client.transportName ⟨endpoint.route, returnType⟩).Decides state
        True (Client.methodOf ⟨endpoint.route, returnType⟩) state :=
      Client.method_decides (Endpoint.isFilled_route haccepted)
    exact ⟨_, _, _, (hmethod.answers trivial earlier).1, rfl,
      fun values filling => haccepted.eval?_path⟩

theorem request_path_of_extractRoute_versions :
    ∃ (endpoint : Endpoint) (route : Route) (values : Name → Value) (method : MethodDecl)
        (path : Expr) (rest : List Expr),
      ((extractRoute (SchemaIndex.after [] ∅) endpoint).outcome ∅ ()).1.result = .ok route ∧
      route.segments = [.literal "/ñ/", .param "id", .param "v-1", .literal "/", .param "id",
        .literal "/日"] ∧
      route.params.map (fun param => (values param.term).shown) = ["β", "false", "7"] ∧
      method.body = some [.returns (some (.callOn (.selfField Client.transportName)
        Binding.sendName (.text "PUT" :: path :: rest)))] ∧
      path.eval? values = some (.text "/ñ/7β/7/日") := by
  obtain ⟨endpoint, hendpoint⟩ : ∃ endpoint : Endpoint, endpoint =
    ⟨"put version", .put, "/ñ/\x7bid\x7d\x7bv-1\x7d/\x7bid\x7d/日", ["pets"],
      [⟨"v-1", .path, .string, true⟩, ⟨"dry-run", .query, .boolean, true⟩,
        ⟨"id", .path, .long, false⟩], none, []⟩ := ⟨_, rfl⟩
  obtain ⟨values, hvalues⟩ : ∃ values : Name → Value, values = fun name =>
    if name.text = "id" then .other "7" else if name.text = "v1" then .text "β"
    else .other "false" := ⟨_, rfl⟩
  have hroute : ((extractRoute (SchemaIndex.after [] ∅) endpoint).outcome ∅ ()).1.result =
      .ok endpoint.route := by
    refine result_extractRoute_eq_ok_iff.2 ⟨?_, rfl⟩
    rw [hendpoint]
    decide +kernel
  obtain ⟨-, -, -, -, -, hclient⟩ := request_path_of_extractRoute [] endpoint ∅ ∅ () hroute
  obtain ⟨method, path, rest, -, hbody, hpath⟩ := hclient Binding.voidType ∅
  have hfilling : endpoint.route.FillsWith values fun name => if name = "id" then "7" else "β" := by
    rw [Route.FillsWith, hendpoint, hvalues]
    decide +kernel
  have hsent := hpath values _ hfilling
  refine ⟨endpoint, _, values, method, path, rest, hroute, ?_, ?_, ?_, ?_⟩
  · rw [hendpoint]
    decide +kernel
  · rw [hendpoint, hvalues]
    decide +kernel
  · rw [hbody, hendpoint]
    rfl
  · rw [hsent, hendpoint]
    decide +kernel

end Resolution

end Stubwright
