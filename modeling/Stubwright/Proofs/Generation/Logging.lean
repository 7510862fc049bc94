import Stubwright.Proofs.Concern.Logging
import Stubwright.Proofs.Scopes

/-!
# The log of a run

The log is written and never read. A run comes to the same end whatever was logged before it and
whichever scopes are open, and it leaves the open scopes as they were. What it logs are the entries
of a run with an empty log, within the scopes that were open.

## Main definitions

* `ApiDescription.NotesProperty` — the messages that begin with names of the description
* `ApiDescription.Logs` — what a run may log

## Main results

* `Generation.drive_traces` — the instructions for a description, carried out by any handlers that
  log traces
* `generate_traces` — a run logs a trace
* `generate_beside_log` — a run beside what is logged already
* `generate_wellNested` — the scopes of a run, whether it succeeds or fails
-/

namespace Stubwright

open Source

/-! ## Messages of a run -/

namespace ApiDescription

/-- The note of a property of one of the object schemas. It begins with the names of the schema and
of the property on the wire. -/
def NotesProperty (description : ApiDescription) (message : String) : Prop :=
  ∃ declared ∈ description.schemas, ∃ properties, declared.schema = .object properties ∧
    ∃ property ∈ properties, ∃ type term,
      message = Model.settledNote declared.name property.name type term

/-- What a run on a description may log. -/
def Logs (description : ApiDescription) (level : LogLevel) (message : String) : Prop :=
  level.IsSound message ∨ level = .debug ∧ description.NotesProperty message

variable {description : ApiDescription} {level : LogLevel} {message : String}

private theorem Logs.allows (h : description.Logs level message) : level.Allows message := by
  rcases h with h | ⟨rfl, -⟩
  · exact h.1
  · exact LogLevel.allows_of_ne (by decide)

end ApiDescription

/-- What is sound may be logged on any description. -/
theorem Step.Traces.sound {σ α : Type} {description : ApiDescription} {step : Step σ α}
    (h : step.Traces LogLevel.IsSound) : step.Traces description.Logs := h.mono fun _ _ => .inl

namespace Generation

private theorem accept_traces {σ α : Type} {allowed : LogLevel → String → Prop}
    (result : Except String α) : (accept result : Step σ α).Traces allowed := by
  cases result with
  | ok value => exact .pure
  | error message => exact .refuse

variable {handler : Handler (.all concerns)} (h : handler.Traces Concern.Logs)

include h

/-! ## Schemas -/

private theorem resolve_traces (type : TypeRef) (isOptional : Bool) :
    (resolve handler type isOptional).Traces LogLevel.IsSound := by
  apply (h.exec Concern.resolution (.resolveType type isOptional)).bind
  intro answer
  cases answer with
  | type resolved => exact .pure
  | _ => exact .defect

private theorem renderProperty_traces (className : String) (property : Property) :
    (renderProperty handler className property).Traces
      (Model.PropertyLogs className property.name) := by
  apply ((resolve_traces h property.type property.isOptional).mono fun _ _ => Or.inl).bind
  intro type
  apply (h.exec Concern.model (.transformProperty ..)).bind
  intro answer
  cases answer with
  | field settled => exact .pure
  | rendered definition => exact .defect

private theorem renderVariant_traces (schemas : List SchemaDef)
    (union discriminator variant : String) :
    (renderVariant handler schemas union discriminator variant).Traces LogLevel.IsSound := by
  unfold renderVariant
  cases variantFault? schemas union discriminator variant with
  | some fault => exact .stopped
  | none => exact (resolve_traces h (.ref variant) false).bind fun _ => .pure

private theorem renderSchema_traces {description : ApiDescription} {declared : SchemaDef}
    (hdeclared : declared ∈ description.schemas) :
    (renderSchema handler description.schemas declared).Traces description.Logs := by
  obtain ⟨name, schema⟩ := declared
  cases schema with
  | object properties =>
    have hfields : (properties.mapM (renderProperty handler name)).Traces description.Logs := by
      refine .mapM fun property hproperty => (renderProperty_traces h name property).mono ?_
      rintro level message (hsound | ⟨hlevel, type, term, hnote⟩)
      · exact .inl hsound
      · exact .inr ⟨hlevel, _, hdeclared, _, rfl, property, hproperty, type, term, hnote⟩
    apply hfields.bind
    intro fields
    apply Step.Traces.sound
    apply (Step.Traces.mapM fun union _ => resolve_traces h (.ref union) false).bind
    intro parents
    apply (h.exec Concern.model (.renderClass name fields parents)).bind
    intro answer
    cases answer with
    | rendered definition => exact Step.Traces.pure.discard
    | field settled => exact Step.Traces.defect.discard
  | enumeration values => exact .sound (h.exec Concern.enumeration ⟨name, values⟩).discard
  | array items =>
    exact .sound ((resolve_traces h items false).bind fun type =>
      (h.exec Concern.namedList ⟨name, type⟩).discard)
  | union discriminator variants =>
    have hvariants : (variants.mapM (renderVariant handler description.schemas name
        discriminator)).Traces LogLevel.IsSound :=
      .mapM fun variant _ => renderVariant_traces h description.schemas name discriminator variant
    exact .sound (hvariants.bind fun rendered =>
      (h.exec Concern.union ⟨name, discriminator, rendered⟩).discard)

/-! ## Endpoints -/

private theorem imports_traces (side : Binding.Side) :
    (imports handler side).Traces LogLevel.IsSound := by
  apply (h.exec Concern.binding (.imports side)).bind
  intro answer
  cases answer with
  | imports targets => exact .pure
  | _ => exact .defect

/-- The framework is asked for annotations in two places. -/
theorem annotations_traces (term : Binding.Term) :
    (do
      let answer ← handler.exec Concern.binding term
      Binding.Answer.asAnnotations answer).Traces LogLevel.IsSound := by
  apply (h.exec Concern.binding term).bind
  intro answer
  cases answer with
  | annotations uses => exact .pure
  | _ => exact .defect

private theorem bindRoute_traces (route : Route) :
    (bindRoute handler route).Traces LogLevel.IsSound := by
  unfold bindRoute
  apply (h.exec Concern.binding (.responseType route.response)).bind
  intro answer
  refine Step.Traces.bind ?_ fun returnType => ?_
  · cases answer with
    | responseType type => exact .pure
    | _ => exact .defect
  -- Asking for annotations takes two steps, which are put together to be one instruction.
  rw [← bind_assoc]
  apply (annotations_traces h (.routeAnnotations route.method route.path)).bind
  intro annotations
  exact (Step.Traces.mapM fun (param : RouteParam) _ =>
    annotations_traces h (.paramAnnotations param.location param.name)).bind fun _ => .pure

private theorem renderGroup_traces (claims : Claims) (group : String) (routes : List Route) :
    (renderGroup handler claims group routes).Traces LogLevel.IsSound := by
  unfold renderGroup
  apply (imports_traces h .client).bind
  intro clientImports
  apply (imports_traces h .server).bind
  intro serverImports
  apply (Step.Traces.mapM fun route _ => bindRoute_traces h route).bind
  intro bound
  apply (h.exec Concern.client ⟨group, bound.map Prod.fst, clientImports⟩).bind
  intro client
  apply (accept_traces _).bind
  intro claims
  apply (h.exec Concern.server ⟨group, bound.map Prod.snd, serverImports⟩).bind
  intro server
  exact accept_traces _

private theorem renderEndpoints_traces (claims : Claims) (endpoints : List Endpoint) :
    (renderEndpoints handler claims endpoints).Traces LogLevel.IsSound := by
  unfold renderEndpoints
  apply (h.exec Concern.binding .transportSupport).bind
  intro answer
  refine Step.Traces.bind ?_ fun support => ?_
  · cases answer with
    | support definitions => exact .pure
    | _ => exact .defect
  apply (accept_traces _).bind
  intro claims
  apply (h.exec Concern.resolution (.extractRoutes endpoints)).bind
  intro answer
  refine Step.Traces.bind ?_ fun routes => ?_
  · cases answer with
    | routes extracted => exact .pure
    | _ => exact .defect
  apply Step.Traces.discard
  exact .foldlM fun claims (group, routes) => (renderGroup_traces h claims group routes).inScope

/-! ## Descriptions -/

/-- The instructions for a description log a trace, whichever handlers carry them out. -/
theorem drive_traces (description : ApiDescription) :
    (drive handler description).Traces description.Logs := by
  unfold drive
  apply Step.Traces.liftExcept.bind
  intro _
  refine Step.Traces.logged (.inl (LogLevel.isSound_of_isRemark (by decide) ?_)) ?_
  · simp +decide [String.append_assoc]
  apply (Step.Traces.sound (h.exec Concern.resolution (.indexSchemas description.schemas))).bind
  intro answer
  refine Step.Traces.bind ?_ fun names => ?_
  · cases answer with
    | indexed names => exact .pure
    | _ => exact .defect
  apply (accept_traces _).bind
  intro claims
  have hschemas : (description.schemas.forM fun schema => Step.inScope schema.name
      (renderSchema handler description.schemas schema)).Traces description.Logs :=
    .forM fun schema hschema => (renderSchema_traces h hschema).inScope
  apply hschemas.bind
  intro _
  split
  · exact .pure
  · exact .sound (renderEndpoints_traces h claims description.endpoints)

end Generation

/-! ## Whole runs -/

section

variable {σ : Type} (description : ApiDescription) (config : GeneratorConfig)

/-- A run logs a trace, and all of it is one scope. Whether the note of the package is sound cannot
be told here, as any text may be configured for it. -/
theorem generate_traces {allowed : LogLevel → String → Prop}
    (hpackage : allowed .debug (Grammar.qualifiedName.note config.package))
    (hlogs : ∀ level message, description.Logs level message → allowed level message) :
    (generate description config : Step σ Codegen).Traces allowed := by
  apply Step.Traces.inScope
  apply (Grammar.read_traces hpackage).bind
  intro package
  refine Step.Traces.logged (hlogs _ _ (.inl ?_)) ?_
  · exact LogLevel.isSound_of_isRemark (by decide) (by simp +decide [String.append_assoc])
  have hdrive := Generation.drive_traces (handlers_traces package config) description
  exact (Session.whole_traces (hdrive.mono hlogs)).map

/-- No message of a run warns of an unbalanced pop. -/
theorem generate_traces_allowed :
    (generate description config : Step σ Codegen).Traces LogLevel.Allows :=
  generate_traces description config (LogLevel.allows_of_ne (by decide)) fun _ _ h => h.allows

/-- A log takes no part in a run that it is handed to. The run has the result that it has with an
empty log, whether that is a success or a failure. It adds the entries that it adds to an empty log,
each within the scopes that are open, and these scopes are open again at the end. -/
theorem generate_beside_log (log : Log) (state : σ) :
    let run := ((generate description config).outcome log state).1
    let alone := ((generate description config).outcome ∅ state).1
    run.result = alone.result ∧
      run.log.entries = log.entries ++ alone.log.entries.map (LogEntry.under log.scope) ∧
        run.log.scope = log.scope := by
  -- One trace is written to both logs; only the paths of its entries tell them apart.
  obtain ⟨result, trace, after, -, houtcome⟩ := generate_traces_allowed description config state
  have hentries : trace.entries log.scope =
      (trace.entries []).map (LogEntry.under log.scope) := by
    rw [← Trace.entries_under, List.append_nil]
  simp only [houtcome, Log.write, hentries]
  refine ⟨trivial, ?_, trivial⟩
  simp [EmptyCollection.emptyCollection, Log.empty]

/-- Whether a run succeeds or fails, its entries are well nested: each scope that it opens is closed
by one later marker, and none is closed that was not opened, so that no unbalanced pop is warned of.
The path of each entry is that of the scopes that were open before the run, and then of those that
the run has opened at this point. -/
theorem generate_wellNested (log : Log) (state : σ) :
    let run := ((generate description config).outcome log state).1
    ∃ added : List LogEntry, run.log.entries = log.entries ++ added.toArray ∧
      WellNested added ∧
      (∀ entry ∈ added, entry.level = .warning → entry.event ≠ .message Log.unbalancedPop) ∧
      added.map (·.path) = (scopePaths [] added).map (log.scope ++ ·) := by
  obtain ⟨result, trace, after, hall, houtcome⟩ := generate_traces_allowed description config state
  have hpaths := trace.map_path_entries log.scope []
  rw [List.append_nil] at hpaths
  simp only [houtcome]
  exact ⟨trace.entries log.scope, rfl, trace.wellNested_entries log.scope,
    fun entry hentry hlevel hevent => hall.of_mem_entries hentry hevent hlevel rfl, hpaths⟩

end

end Stubwright
