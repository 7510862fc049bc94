import Stubwright.Naming.Reserved
import Stubwright.Text.Classes

/-!
# Names

A name is an identifier that is not reserved; the type carries the proof, so no part of a syntax
tree can hold anything else.

## Main definitions

* `Name` — a simple name
* `QualifiedName` — names with dots between them, such as `java.util.Optional`
-/

namespace Stubwright.Source

open Text Naming

/-- The shape of an identifier. -/
def isIdentifier : List Char → Bool
  | [] => false
  | c :: rest => isNameStart c && rest.all isNamePart

/-- A text that can name something: an identifier that is not reserved. -/
def IsName (text : String) : Prop := isIdentifier text.toList ∧ isReserved text = false

instance (text : String) : Decidable (IsName text) := inferInstanceAs (Decidable (_ ∧ _))

/-- A simple name. -/
structure Name where
  text : String
  isName : IsName text
deriving DecidableEq

namespace Name

instance : ToString Name := ⟨text⟩

end Name

/-- Names with dots between them: the last segment and the segments before it. -/
structure QualifiedName where
  qualifier : List Name
  name : Name
deriving DecidableEq

namespace QualifiedName

/-- The qualified name of one segment. -/
def simple (name : Name) : QualifiedName := ⟨[], name⟩

/-- The qualified name with a first segment and those after it. -/
def ofSegments (first : Name) : List Name → QualifiedName
  | [] => simple first
  | second :: rest =>
    let tail := ofSegments second rest
    ⟨first :: tail.qualifier, tail.name⟩

/-- All segments, outermost first. -/
def segments (name : QualifiedName) : List Name := name.qualifier ++ [name.name]

/-- Whether there is a single segment. -/
def isSimple (name : QualifiedName) : Bool := name.qualifier.isEmpty

/-- Appends a segment. -/
def child (parent : QualifiedName) (name : Name) : QualifiedName := ⟨parent.segments, name⟩

/-- The name without its last segment, if anything is left. -/
def parent? (name : QualifiedName) : Option QualifiedName :=
  match name.qualifier with
  | [] => none
  | first :: rest => some (ofSegments first rest)

/-- The segments with dots between them. -/
def text (name : QualifiedName) : String :=
  String.intercalate "." (name.segments.map Name.text)

instance : ToString QualifiedName := ⟨text⟩

@[simp] theorem segments_simple (name : Name) : (simple name).segments = [name] := rfl

@[simp] theorem segments_child (parent : QualifiedName) (name : Name) :
    (parent.child name).segments = parent.segments ++ [name] := rfl

@[simp] theorem segments_ofSegments (first : Name) (rest : List Name) :
    (ofSegments first rest).segments = first :: rest := by
  induction rest generalizing first with
  | nil => rfl
  | cons second rest ih =>
    have h := ih second
    simp only [segments] at h
    simp [ofSegments, segments, h]

/-- A qualified name is its list of segments. -/
theorem eq_of_segments_eq {a b : QualifiedName} (h : a.segments = b.segments) : a = b := by
  obtain ⟨qa, na⟩ := a
  obtain ⟨qb, nb⟩ := b
  simp only [segments] at h
  obtain ⟨rfl, h⟩ := List.append_inj' h rfl
  simp_all

end QualifiedName

end Stubwright.Source
