/-!
# Reserved words

The words of Java that cannot name anything, and how a name that collides with one is escaped: a
marker is appended. A name written on purpose as `class_` reads as an escaped `class`, so a caller
that needs such a name back has to keep it.
-/

namespace Stubwright.Naming

/-- The reserved words of Java, the lone underscore among them. -/
def reservedWords : List String :=
  ["_", "abstract", "assert", "boolean", "break", "byte", "case", "catch", "char", "class", "const",
    "continue", "default", "do", "double", "else", "enum", "extends", "false", "final", "finally",
    "float", "for", "goto", "if", "implements", "import", "instanceof", "int", "interface", "long",
    "native", "new", "null", "package", "private", "protected", "public", "return", "short",
    "static", "strictfp", "super", "switch", "synchronized", "this", "throw", "throws",
    "transient", "true", "try", "void", "volatile", "while"]

/-- Whether a text is a reserved word. -/
def isReserved (text : String) : Bool := reservedWords.contains text

/-- What is appended to a name that collides with a reserved word. -/
def escapeMarker : Char := '_'

/-- A reserved word with the marker appended; any other text as it is. -/
def escape (text : String) : String :=
  if isReserved text then text.push escapeMarker else text

/-- Takes one trailing marker off when a reserved word remains. -/
def unescape (text : String) : String :=
  if text.toList.getLast? = some escapeMarker then
    let stem := String.ofList text.toList.dropLast
    if isReserved stem then stem else text
  else text

/-- The quick test for reserved words agrees with their list. -/
theorem isReserved_iff {text : String} : isReserved text ↔ text ∈ reservedWords := by
  simp [isReserved]

/-- Only reserved words are escaped. -/
theorem escape_of_not_isReserved {text : String} (h : isReserved text = false) :
    escape text = text := by simp [escape, h]

/-- An escaped reserved word unescapes to the word. -/
theorem unescape_escape_of_isReserved {text : String} (h : isReserved text) :
    unescape (escape text) = text := by
  simp [unescape, escape, h]

/-- What escaping answers is never reserved. -/
theorem isReserved_escape (text : String) : isReserved (escape text) = false := by
  unfold escape
  split
  · rename_i h
    have hall : ∀ word ∈ reservedWords, isReserved (word.push escapeMarker) = false := by
      decide +kernel
    exact hall text (isReserved_iff.1 h)
  · simpa using ‹¬isReserved text = true›

end Stubwright.Naming
