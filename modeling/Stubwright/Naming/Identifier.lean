import Stubwright.Naming.Reserved
import Stubwright.Naming.Words
import Stubwright.Text.Classes

/-!
# Java identifiers for wire names

Any text at all becomes an identifier that is not reserved: a text without words gets a fallback, a
leading digit gets a letter in front of it, and a reserved word is escaped.

The names are irreducible: a proof that meets one on a text that is not known would otherwise go
through the cases of every character.
-/

namespace Stubwright.Naming

open Text

/-- Whether a text begins like an identifier. -/
def beginsName (text : String) : Bool := text.toList.head?.any isNameStart

/-- The name of a type: `PetStore`. -/
@[irreducible]
def typeName (raw : String) : String :=
  let pascal := pascalCase raw
  let shaped := if pascal.isEmpty then "Type" else pascal
  escape (if beginsName shaped then shaped else "Type" ++ shaped)

/-- The name of a member: `petStore`. A text without words takes the fallback. -/
@[irreducible]
def memberName (raw fallback : String) : String :=
  let camel := camelCase raw
  let shaped := if camel.isEmpty then fallback else camel
  escape (if beginsName shaped then shaped else "_" ++ shaped)

/-- The name of a constant: `PET_STORE`. -/
@[irreducible]
def constantName (raw : String) : String :=
  let snake := upperSnakeCase raw
  let shaped := if snake.isEmpty then "VALUE" else snake
  if beginsName shaped then shaped else "V_" ++ shaped

/-- The name of the getter of a member, which an escaped member lends its plain word. The name
`getClass` is taken by every Java object, so it gets an underscore. -/
@[irreducible]
def getterName (member : String) : String :=
  let getter := "get" ++ pascalCase (unescape member)
  if getter = "getClass" then "getClass_" else getter

end Stubwright.Naming
