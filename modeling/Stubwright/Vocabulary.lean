import Stubwright.Definition
import Stubwright.Step

/-!
# Vocabularies and handlers

A vocabulary is a closed set of instructions for one concern of generation, with the answers to
them. Vocabularies are put together into larger ones, and so are their handlers: an instruction of
a sum goes to the handler of its half. Each handler has a state of its own, which outlives a
failed instruction.

## Main definitions

* `Vocabulary`, `Vocabulary.all` — vocabularies, and the sum of a list of them
* `Member` — the place of a vocabulary in a list
* `Member.inject`, `Member.project?` — its instructions among all, its answers among all
* `Handler`, `Handlers.combined` — handlers, and the handler of a sum
-/

namespace Stubwright

/-- A closed set of instructions with the answers to them. -/
structure Vocabulary where
  /-- The instructions. -/
  Term : Type
  /-- The answers. -/
  Answer : Type
  /-- A short description of an instruction. -/
  label : Term → String
  /-- Adds the definitions that an answer carries to those collected before. -/
  contribute : Answer → Codegen → Codegen

namespace Vocabulary

/-- The vocabulary without instructions. -/
def empty : Vocabulary where
  Term := Empty
  Answer := Empty
  label := nofun
  contribute := nofun

/-- The instructions of two vocabularies, told apart. -/
def sum (V W : Vocabulary) : Vocabulary where
  Term := V.Term ⊕ W.Term
  Answer := V.Answer ⊕ W.Answer
  label
    | .inl term => V.label term
    | .inr term => W.label term
  contribute
    | .inl answer => V.contribute answer
    | .inr answer => W.contribute answer

/-- The instructions of every vocabulary of a list. -/
def all : List Vocabulary → Vocabulary
  | [] => empty
  | V :: Vs => V.sum (all Vs)

end Vocabulary

/-- The place of a vocabulary in a list. -/
inductive Member (V : Vocabulary) : List Vocabulary → Type 1 where
  | here {Vs : List Vocabulary} : Member V (V :: Vs)
  | there {W : Vocabulary} {Vs : List Vocabulary} : Member V Vs → Member V (W :: Vs)

namespace Member

variable {V : Vocabulary}

/-- An instruction of a vocabulary as one of all. -/
def inject : {Vs : List Vocabulary} → Member V Vs → V.Term → (Vocabulary.all Vs).Term
  | _, here, term => Sum.inl term
  | _, there member, term => Sum.inr (member.inject term)

/-- An answer of a vocabulary as one of all. -/
def injectAnswer : {Vs : List Vocabulary} → Member V Vs → V.Answer → (Vocabulary.all Vs).Answer
  | _, here, answer => Sum.inl answer
  | _, there member, answer => Sum.inr (member.injectAnswer answer)

/-- The answer of a vocabulary that one of all is, if it is one of its answers. -/
def project? : {Vs : List Vocabulary} → Member V Vs → (Vocabulary.all Vs).Answer → Option V.Answer
  | _, here, .inl answer => some answer
  | _, here, .inr _ => none
  | _, there _, .inl _ => none
  | _, there member, .inr answer => member.project? answer

@[simp] theorem project?_injectAnswer {Vs : List Vocabulary} (member : Member V Vs)
    (answer : V.Answer) : member.project? (member.injectAnswer answer) = some answer := by
  induction member with
  | here => rfl
  | there member ih => exact ih

end Member

/-- What carries out the instructions of a vocabulary, with the state it keeps. -/
structure Handler (V : Vocabulary) where
  /-- What the handler remembers from one instruction to the next. -/
  State : Type
  /-- The state before the first instruction. -/
  start : State
  /-- Carries out an instruction. -/
  handle : V.Term → Step State V.Answer

namespace Handler

variable {V W : Vocabulary}

/-- The handler of the vocabulary without instructions. -/
def forEmpty : Handler .empty where
  State := Unit
  start := ()
  handle := nofun

/-- A handler that remembers nothing. -/
def stateless (handle : V.Term → Step Unit V.Answer) : Handler V where
  State := Unit
  start := ()
  handle := handle

/-- The handler of a sum: an instruction goes to the handler of its half. -/
def both (first : Handler V) (second : Handler W) : Handler (V.sum W) where
  State := first.State × second.State
  start := (first.start, second.start)
  handle
    | .inl term => Sum.inl <$> (first.handle term).onFst
    | .inr term => Sum.inr <$> (second.handle term).onSnd

end Handler

/-- A handler for every vocabulary of a list. -/
inductive Handlers : List Vocabulary → Type 1 where
  | nil : Handlers []
  | cons {V : Vocabulary} {Vs : List Vocabulary} (first : Handler V) (rest : Handlers Vs) :
      Handlers (V :: Vs)

/-- The handlers of a list of vocabularies as the handler of their sum. -/
def Handlers.combined : {Vs : List Vocabulary} → Handlers Vs → Handler (.all Vs)
  | _, nil => .forEmpty
  | _, cons first rest => first.both rest.combined

end Stubwright
