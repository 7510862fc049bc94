/-!
# Words of a wire name

A wire name is split into words at every character that is no ASCII letter or digit, and inside
the remaining runs where the case or the kind of character changes. The case styles of generated
names are put together from these words.

## Main definitions

* `words` — the words of a text, as they are written
* `tokens` — the words in lower case
* `pascalCase`, `camelCase`, `upperSnakeCase` — the three styles
-/

namespace Stubwright.Naming

/-- Whether a word ends between `last` and `first`, where `next` follows `first`: at a hump from
lower to upper case, between a letter and a digit either way, and before the last capital of a run
of capitals that a lower-case letter follows. -/
def isHump (last first : Char) (next : Option Char) : Bool :=
  (last.isLower && first.isUpper) || (last.isAlpha && first.isDigit)
    || (last.isDigit && first.isAlpha)
    || (last.isUpper && first.isUpper && next.any Char.isLower)

/-- Whether the word that holds `c` goes on in the text after it. -/
def goesOn (c : Char) : List Char → Bool
  | [] => false
  | d :: rest => d.isAlphanum && !isHump c d rest.head?

/-- Puts a character in front of the first word. -/
def glue (c : Char) : List (List Char) → List (List Char)
  | [] => [[c]]
  | word :: rest => (c :: word) :: rest

/-- The words of a text. -/
def words : List Char → List (List Char)
  | [] => []
  | c :: rest =>
    if c.isAlphanum then
      if goesOn c rest then glue c (words rest) else [c] :: words rest
    else words rest

/-- The words of a text in lower case. -/
def lowerWords (raw : String) : List (List Char) :=
  (words raw.toList).map (·.map Char.toLower)

/-- The words of a text in lower case, as texts. -/
def tokens (raw : String) : List String := (lowerWords raw).map String.ofList

/-- A word with its first letter in upper case. -/
def capitalize : List Char → List Char
  | [] => []
  | c :: rest => c.toUpper :: rest

/-- Every word capitalized: `PetStore`. -/
def pascalCase (raw : String) : String :=
  String.ofList ((lowerWords raw).flatMap capitalize)

/-- Every word but the first capitalized: `petStore`. -/
def camelCase (raw : String) : String :=
  match lowerWords raw with
  | [] => ""
  | word :: rest => String.ofList (word ++ rest.flatMap capitalize)

/-- Words in upper case with underscores between them: `PET_STORE`. -/
def upperSnakeCase (raw : String) : String :=
  String.ofList ((['_'].intercalate (lowerWords raw)).map Char.toUpper)

/-- A word is never empty. -/
theorem ne_nil_of_mem_words {cs word : List Char} (h : word ∈ words cs) : word ≠ [] := by
  fun_induction words cs generalizing word with
  | case1 => simp at h
  | case2 c rest _ _ ih =>
    unfold glue at h
    split at h
    · simp_all
    · rename_i first others heq
      rw [heq] at ih
      rcases List.mem_cons.1 h with rfl | h
      · simp
      · exact ih (List.mem_cons_of_mem _ h)
  | case3 c rest _ _ ih =>
    rcases List.mem_cons.1 h with rfl | h
    · simp
    · exact ih h
  | case4 c rest _ ih => exact ih h

end Stubwright.Naming
