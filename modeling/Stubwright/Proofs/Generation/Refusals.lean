import Stubwright.Proofs.Generation.Acceptance
import Stubwright.Proofs.Generation.Logging

/-!
# Refused texts

The only text that a run may refuse is the package that is configured. Every other text is made by
the generator from names that it has sanitized before, and can be read. A text is noted before it is
read, so the log of a run holds all of them, and a refusal would be seen there even if the run went
on behind it.

## Main results

* `user_and_reads_of_generate` — whose fault a failure is, and which texts are read on the way
-/

namespace Stubwright

open Source

/-- The note of the configured package, which is no qualified name. -/
def GeneratorConfig.NotesRefusal (config : GeneratorConfig) (message : String) : Prop :=
  message = Grammar.qualifiedName.note config.package ∧
    ∃ fault, Grammar.qualifiedName.parse config.package = .error fault

/-- The note of a property begins with the name of its schema, so for a description without names
that begin like notes of texts it is never taken for one. -/
theorem ApiDescription.NotesProperty.exists_isPrefix {description : ApiDescription}
    {message : String} (h : description.NotesProperty message) :
    ∃ declared ∈ description.schemas, declared.name.toList <+: message.toList := by
  obtain ⟨declared, hdeclared, properties, -, property, -, type, term, rfl⟩ := h
  refine ⟨declared, hdeclared, ?_⟩
  show _ <+: (declared.name ++ "." ++ property.name ++ " -> " ++ toString type ++ " " ++
    toString term).toList
  simp [List.append_assoc]

variable {σ : Type}

/-- Beside the messages that may always be logged, a run notes only its package. -/
theorem generate_traces_logs (description : ApiDescription) (config : GeneratorConfig) :
    (generate description config : Step σ Codegen).Traces fun level message =>
      description.Logs level message ∨ config.NotesRefusal message := by
  refine generate_traces description config ?_ fun _ _ => Or.inl
  cases hpackage : Grammar.qualifiedName.parse config.package with
  | error fault => exact .inr ⟨rfl, fault, hpackage⟩
  | ok package => exact .inl (.inl (Grammar.EntryPoint.qualifiedName.isSound_note hpackage))

/-- A run that fails does so because of its input. Whether it fails or succeeds, the only text that
a reader may refuse is the configured package: every note of a text that is read is that of a text
that can be read, or that of the package. Only the notes of properties are left aside, as they begin
with the names of schemas, whatever these are. -/
theorem user_and_reads_of_generate (description : ApiDescription) (config : GeneratorConfig)
    (log : Log) (state : σ) :
    let run := ((generate description config).outcome log state).1
    (∀ error, run.result = .error error → error.kind = .user ∧
      (Grammar.IsRefusal error.message ↔
        ∃ fault, Grammar.qualifiedName.parse config.package = .error fault)) ∧
    ∃ added : List LogEntry, run.log.entries = log.entries ++ added.toArray ∧
      ∀ entry ∈ added, ∀ message, entry.event = .message message →
        NotesNoRefusal message ∨ config.NotesRefusal message ∨
          description.NotesProperty message := by
  intro run
  constructor
  · intro error herror
    cases hpackage : Grammar.qualifiedName.parse config.package with
    | error fault =>
      obtain rfl := Except.error.inj ((generate_refuses hpackage description log).symm.trans herror)
      exact ⟨rfl, iff_of_true ⟨_, _, _, fault, rfl⟩ ⟨fault, rfl⟩⟩
    | ok package =>
      obtain ⟨hkind, hwords⟩ := (generate_decides hpackage description).user_of_error herror
      exact ⟨hkind, iff_of_false hwords nofun⟩
  · obtain ⟨result, trace, after, hall, houtcome⟩ :=
      generate_traces_logs description config state
    have hentries : run.log.entries = log.entries ++ (trace.entries log.scope).toArray := by
      show ((generate description config).outcome log state).1.log.entries = _
      rw [houtcome]
      rfl
    refine ⟨trace.entries log.scope, hentries, fun entry hentry message hevent => ?_⟩
    rcases hall.of_mem_entries hentry hevent with (⟨-, hread⟩ | ⟨-, hproperty⟩) | hpackage
    · exact .inl hread
    · exact .inr (.inr hproperty)
    · exact .inr (.inl hpackage)

/-- An enumeration without values is refused, but only when names for a class, a field, a getter and
a constant were read. None of them is a name on the wire, and each of them can be read. -/
theorem user_and_reads_of_generate_sanitized :
    let description : ApiDescription :=
      { requires := none
        schemas := [⟨"1 colour", .object [⟨"class", .string, false⟩]⟩,
          ⟨"shade", .enumeration ["2 dark"]⟩, ⟨"none", .enumeration []⟩]
        endpoints := [] }
    let run := ((generate description .standard).outcome ∅ ()).1
    ∃ error, run.result = .error error ∧ error.kind = .user ∧ ¬ Grammar.IsRefusal error.message ∧
      ∀ text ∈ ["Type1Colour", "class_", "getClass_", "V_2_DARK"],
        (∃ entry ∈ run.log.entries, entry.event = .message (Grammar.name.note text)) ∧
          ∃ value, Grammar.name.parse text = .ok value := by
  intro description
  have hresult : ((generate description .standard).outcome ∅ ()).1.result =
      .error (.user "enum 'none' declares no values") := by decide +kernel
  have hnoted : ∀ text ∈ ["Type1Colour", "class_", "getClass_", "V_2_DARK"],
      ∃ entry ∈ ((generate description .standard).outcome ∅ ()).1.log.entries,
        entry.event = .message (Grammar.name.note text) := by decide +kernel
  have hnames : ∀ text ∈ ["Type1Colour", "class_", "getClass_", "V_2_DARK"],
      ∀ declared ∈ description.schemas,
        ¬ declared.name.toList <+: (Grammar.name.note text).toList := by decide +kernel
  have hpackage : ¬ ∃ fault,
      Grammar.qualifiedName.parse GeneratorConfig.standard.package = .error fault := by
    simp [GeneratorConfig.parse_package_standard]
  have hrun := user_and_reads_of_generate description .standard ∅ ()
  -- What the run is computed from plays no part in what follows.
  generalize ((generate description .standard).outcome ∅ ()).1 = run at hresult hnoted hrun ⊢
  obtain ⟨herror, added, hadded, hreads⟩ := hrun
  obtain ⟨huser, hrefusal⟩ := herror _ hresult
  refine ⟨_, hresult, huser, hrefusal.not.2 hpackage, fun text htext => ⟨hnoted text htext, ?_⟩⟩
  obtain ⟨entry, hentry, hevent⟩ := hnoted text htext
  have hentries : run.log.entries = added.toArray :=
    hadded.trans (by simp [EmptyCollection.emptyCollection, Log.empty])
  rw [hentries, List.mem_toArray] at hentry
  rcases hreads entry hentry _ hevent with hread | ⟨-, hfault⟩ | hproperty
  · exact hread Grammar.name text .name rfl
  · exact absurd hfault hpackage
  · obtain ⟨declared, hdeclared, hprefix⟩ := hproperty.exists_isPrefix
    exact absurd hprefix (hnames text htext declared hdeclared)

/-- The note of a property can be the same as that of a text that is refused. -/
example : ¬ NotesNoRefusal (Model.settledNote "parse_name: 1" "id" .text ⟨"id", by decide⟩) := by
  intro h
  obtain ⟨value, hvalue⟩ := h Grammar.name "1.id -> String id" .name (by decide +kernel)
  have hrefused : (Grammar.name.parse "1.id -> String id").isOk = false := by decide +kernel
  simp [hvalue, Except.isOk, Except.toBool] at hrefused

end Stubwright
