import Stubwright.Naming.Identifier
import Stubwright.Source.Fragment

/-!
# Java names for wire names

A wire name is made an identifier first and then read as a name, so that what a handler puts into
a syntax tree has always passed the reader.
-/

namespace Stubwright.JavaName

open Source

variable {σ : Type}

/-- The name of the type for a wire name. -/
def ofType (wire : String) : Step σ Name := Grammar.name.read (Naming.typeName wire)

/-- The name of the member for a wire name; a wire name without words takes the fallback. -/
def ofMember (wire fallback : String) : Step σ Name :=
  Grammar.name.read (Naming.memberName wire fallback)

/-- The name of the getter of a member. -/
def ofGetter (member : Name) : Step σ Name := Grammar.name.read (Naming.getterName member.text)

end Stubwright.JavaName
