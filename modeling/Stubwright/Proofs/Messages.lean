import Stubwright.Proofs.NameReading
import Stubwright.Proofs.Source.ErrorPositions
import Stubwright.Proofs.Source.StatementReading
import Stubwright.Proofs.Trace

/-!
# Messages

A run logs notes of the texts that it reads, and remarks in words of its own. A note begins with the
name of the grammar, so it says which text is read and as what, and no remark is taken for one.

## Main definitions

* `LogLevel.Allows` — a message that does not warn of an unbalanced pop
* `NotesNoRefusal` — a message that is no note of a text that is refused
* `LogLevel.IsSound` — both at once

## Main results

* `Source.Grammar.EntryPoint.note_inj` — what a note tells
* `Source.Grammar.EntryPoint.notesNoRefusal` — the note of a text that can be read
* `IsRemark.notesNoRefusal`, `notesNoRefusal_of_not_mem` — messages that are no notes
-/

namespace Stubwright

open Source

/-- A message that does not warn of an unbalanced pop. Such a warning is left to the log itself. -/
def LogLevel.Allows (level : LogLevel) (message : String) : Prop :=
  level = .warning → message ≠ Log.unbalancedPop

/-! ## Notes -/

/-- A message that is no note of a text that is refused: if it is the note of a text, this text can
be read. -/
def NotesNoRefusal (message : String) : Prop :=
  ∀ {α : Type} (grammar : Grammar α) (text : String), grammar.EntryPoint →
    message = grammar.note text → ∃ value, grammar.parse text = .ok value

namespace Source.Grammar

variable {α β : Type} {grammar : Grammar α} {other : Grammar β} {text asked : String}

theorem toList_note (grammar : Grammar α) (text : String) :
    (grammar.note text).toList = grammar.operation.toList ++ ':' :: ' ' :: text.toList := by
  show (grammar.operation ++ ": " ++ text).toList = _
  simp

namespace EntryPoint

/-- How the notes of an entry point begin. -/
theorem operation_spec (h : grammar.EntryPoint) :
    "parse_".toList <+: grammar.operation.toList ∧ ':' ∉ grammar.operation.toList := by
  cases h <;> decide

/-- A note tells the grammar by its operation, and the text. -/
theorem note_inj (h : grammar.EntryPoint) (h' : other.EntryPoint) :
    grammar.note text = other.note asked ↔ grammar.operation = other.operation ∧ text = asked := by
  refine ⟨fun hnote => ?_, fun ⟨hoperation, htext⟩ => by rw [note, note, hoperation, htext]⟩
  have hcs := congrArg String.toList hnote
  rw [toList_note, toList_note] at hcs
  -- The operation is what stands before the first colon.
  have hbefore := congrArg (List.takeWhile (· ≠ ':')) hcs
  obtain ⟨-, hcolon⟩ := h.operation_spec
  obtain ⟨-, hcolon'⟩ := h'.operation_spec
  rw [(takeWhile_append_of_not_mem hcolon _ (by simp)).1,
    (takeWhile_append_of_not_mem hcolon' _ (by simp)).1] at hbefore
  rw [hbefore, List.append_cancel_left_eq] at hcs
  simp only [List.cons.injEq, true_and] at hcs
  exact ⟨String.toList_inj.1 hbefore, String.toList_inj.1 hcs⟩

/-- No two entry points have the same operation. -/
theorem exists_parse_eq_ok (h : grammar.EntryPoint) (h' : other.EntryPoint)
    (hoperation : grammar.operation = other.operation) {value : α}
    (hparse : grammar.parse text = .ok value) : ∃ value, other.parse text = .ok value := by
  cases h <;> cases h' <;> first | exact absurd hoperation (by decide) | exact ⟨_, hparse⟩

/-- The note of a text that can be read is no note of any text that is refused. -/
theorem notesNoRefusal (h : grammar.EntryPoint) {value : α}
    (hparse : grammar.parse text = .ok value) : NotesNoRefusal (grammar.note text) := by
  intro β other asked hother hnote
  obtain ⟨hoperation, rfl⟩ := (h.note_inj hother).1 hnote
  exact h.exists_parse_eq_ok hother hoperation hparse

end EntryPoint

end Source.Grammar

/-! ## Remarks -/

/-- A message that differs in its first characters from every note of a text. -/
def IsRemark (message : String) : Prop :=
  ¬ "parse_".toList <+: message.toList ∧ ¬ message.toList <+: "parse_".toList

instance (message : String) : Decidable (IsRemark message) :=
  inferInstanceAs (Decidable (_ ∧ _))

/-- The first words of a message tell whether it is a remark. -/
@[simp] theorem IsRemark.append {lead rest : String} (h : IsRemark lead) :
    IsRemark (lead ++ rest) := by
  obtain ⟨hnote, hshort⟩ := h
  have hlead : lead.toList <+: (lead ++ rest).toList := by simp
  refine ⟨fun hprefix => ?_, fun hprefix => hshort (hlead.trans hprefix)⟩
  exact (List.prefix_or_prefix_of_prefix hprefix hlead).elim hnote hshort

/-- A number is no word. -/
@[simp] theorem isRemark_repr (n : Nat) : IsRemark n.repr := by
  have hdigit : ∀ c ∈ n.repr.toList, c.isDigit := fun c hc =>
    Nat.isDigit_of_mem_toDigits (by decide) (by decide) (Nat.toList_repr ▸ hc)
  refine ⟨fun hprefix => ?_, fun hprefix => ?_⟩
  · have hfirst := hdigit 'p' (List.IsPrefix.subset hprefix (by decide))
    exact absurd hfirst (by decide)
  · obtain ⟨c, rest, hcs⟩ := List.exists_cons_of_ne_nil (l := n.repr.toList) (by simp)
    have hfirst := hdigit c (hcs ▸ List.mem_cons_self)
    rw [hcs] at hprefix
    obtain ⟨rfl, -⟩ := List.cons_prefix_cons.1 hprefix
    exact absurd hfirst (by decide)

/-- A remark is no note of any text, so it is no note of a text that is refused. -/
theorem IsRemark.notesNoRefusal {message : String} (h : IsRemark message) :
    NotesNoRefusal message := by
  rintro α grammar text hgrammar rfl
  obtain ⟨hoperation, -⟩ := hgrammar.operation_spec
  refine absurd ?_ h.1
  rw [Grammar.toList_note]
  exact hoperation.trans (List.prefix_append ..)

/-- Every note has a colon behind the name of its grammar. -/
theorem notesNoRefusal_of_not_mem {message : String} (h : ':' ∉ message.toList) :
    NotesNoRefusal message := by
  rintro α grammar text - rfl
  simp [Grammar.toList_note] at h

/-! ## Names and types have no colons -/

/-- No name has a colon. -/
theorem Source.Name.not_mem_text (name : Name) : ':' ∉ name.text.toList := fun hmem =>
  absurd (Naming.isNamePart_of_isIdentifier name.isName.1 _ hmem) (by decide)

/-- What stands in a type is written without colons. -/
private theorem Source.Piece.not_mem_spelling {p : Piece} (hp : p.isReadable)
    (htype : ∀ t, p.token? = some t → t.inType) : ':' ∉ p.spelling.toList := by
  cases p with
  | token t =>
    have hin := htype t rfl
    cases t with
    | word text =>
      exact fun hmem => absurd (Naming.isNamePart_of_isIdentifier hp _ hmem) (by decide)
    | symbol s => cases s <;> decide
    | integer n => cases hin
    | quoted value => cases hin
  | long n => cases htype _ rfl
  | space | newline | indent => decide

/-- No type is written with a colon. -/
theorem Source.Ty.not_mem_canonical (type : Ty) : ':' ∉ (canonical type).toList := by
  rw [canonical, Piece.toList_render]
  intro hmem
  obtain ⟨p, hp, hcolon⟩ := List.mem_flatMap.1 hmem
  refine p.not_mem_spelling (type.spaced_pieces.2 p hp) (fun t ht => ?_) hcolon
  exact type.isTypeText.inType t (List.mem_filterMap.2 ⟨p, hp, ht⟩)

/-! ## Sound messages -/

/-- A message that a run may log: it leaves warnings of scopes to the log, and notes no text that is
refused. -/
def LogLevel.IsSound (level : LogLevel) (message : String) : Prop :=
  level.Allows message ∧ NotesNoRefusal message

namespace LogLevel

variable {level : LogLevel} {message : String}

/-- Only a warning has to be looked at. -/
theorem allows_of_ne (h : level ≠ .warning) : level.Allows message := fun hwarning =>
  absurd hwarning h

/-- A remark that does not warn of anything is sound. -/
theorem isSound_of_isRemark (hlevel : level ≠ .warning) (h : IsRemark message) :
    level.IsSound message := ⟨allows_of_ne hlevel, h.notesNoRefusal⟩

end LogLevel

/-- The note of a text that can be read is sound. -/
theorem Source.Grammar.EntryPoint.isSound_note {α : Type} {grammar : Grammar α} {text : String}
    {value : α} (h : grammar.EntryPoint) (hparse : grammar.parse text = .ok value) :
    LogLevel.debug.IsSound (grammar.note text) :=
  ⟨LogLevel.allows_of_ne (by decide), h.notesNoRefusal hparse⟩

end Stubwright
