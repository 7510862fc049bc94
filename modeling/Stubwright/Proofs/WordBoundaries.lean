import Stubwright.Proofs.MemberWords

/-!
# Where words begin and end

Splitting a text into words drops what is no letter or digit and keeps everything else in its order.
No word mixes letters with digits, so that a word in capitals has no boundary inside of it: no small
letter follows its capitals, and no change of kind. Words in capitals with something between them
are therefore told apart again.

## Main results

* `flatten_words` — the words of a text are its letters and digits
* `isDigit_eq_of_mem_words` — a word holds letters or digits, but not both
* `words_intercalate` — words in capitals, with underscores between them, are the words of the text
* `lowerWords_upperSnakeCase` — the upper-case form of a text has the words of the text
* `tokens_lossless` — what the words of a text hold, and of which words its upper-case form is made
-/

namespace Stubwright.Naming

/-! ## Nothing is lost -/

private theorem flatten_glue (c : Char) (parts : List (List Char)) :
    (glue c parts).flatten = c :: parts.flatten := by
  cases parts <;> rfl

/-- The words of a text are its letters and digits, in order. -/
theorem flatten_words (cs : List Char) : (words cs).flatten = cs.filter Char.isAlphanum := by
  fun_induction words cs with
  | case1 => rfl
  | case2 c rest hc _ ih => rw [flatten_glue, ih, List.filter_cons_of_pos hc]
  | case3 c rest hc _ ih =>
    rw [List.flatten_cons, ih, List.filter_cons_of_pos hc, List.singleton_append]
  | case4 c rest hc ih => rw [ih, List.filter_cons_of_neg hc]

private theorem flatten_lowerWords (raw : String) :
    (lowerWords raw).flatten = (raw.toList.filter Char.isAlphanum).map Char.toLower := by
  rw [lowerWords, ← List.map_flatten, flatten_words]

/-! ## Letters or digits -/

/-- A word does not change between letters and digits. -/
theorem isDigit_eq_of_mem_words {cs word : List Char} (h : word ∈ words cs) :
    ∀ c ∈ word, ∀ d ∈ word, c.isDigit = d.isDigit := by
  refine forall_mem_words (P := fun word => ∀ c ∈ word, ∀ d ∈ word, c.isDigit = d.isDigit)
    ?_ ?_ cs word h
  · simp
  · intro c d rest tail hc hgoes htail
    have hkind : d.isDigit = c.isDigit := (of_goesOn hc hgoes).2.1
    have hsame : ∀ e ∈ c :: d :: tail, e.isDigit = c.isDigit :=
      List.forall_mem_cons.2 ⟨rfl, fun e he => (htail e he d List.mem_cons_self).trans hkind⟩
    exact fun e he f hf => (hsame e he).trans (hsame f hf).symm

section

variable {raw : String} {word : List Char} (h : word ∈ lowerWords raw)

include h

/-- What is no digit is a small letter in lower case. -/
theorem isLower_of_mem_lowerWords : ∀ c ∈ word, c.isLower = !c.isDigit := by
  obtain ⟨source, hsource, rfl⟩ := List.mem_map.1 h
  refine List.forall_mem_map.2 fun c hc => ?_
  have halphanum := isAlphanum_of_mem_words hsource c hc
  rw [isLower_toLower halphanum, isDigit_toLower halphanum]

private theorem isDigit_eq_of_mem_lowerWords : ∀ c ∈ word, ∀ d ∈ word, c.isDigit = d.isDigit := by
  obtain ⟨source, hsource, rfl⟩ := List.mem_map.1 h
  have halphanum := isAlphanum_of_mem_words hsource
  simp only [List.forall_mem_map]
  intro c hc d hd
  rw [isDigit_toLower (halphanum c hc), isDigit_toLower (halphanum d hd)]
  exact isDigit_eq_of_mem_words hsource c hc d hd

/-- A word in lower case consists of small letters or of digits. -/
theorem isLower_or_isDigit_of_mem_lowerWords :
    (∀ c ∈ word, c.isLower) ∨ ∀ c ∈ word, c.isDigit := by
  rcases word with - | ⟨first, rest⟩
  · exact .inl nofun
  have hkind := fun c hc => isDigit_eq_of_mem_lowerWords h c hc first List.mem_cons_self
  cases hfirst : first.isDigit with
  | true => exact .inr fun c hc => (hkind c hc).trans hfirst
  | false =>
    refine .inl fun c hc => ?_
    rw [isLower_of_mem_lowerWords h c hc, hkind c hc, hfirst]
    rfl

/-- A word is the same in lower case, after it was in upper case. -/
theorem map_toLower_toUpper_of_mem_lowerWords :
    (word.map Char.toUpper).map Char.toLower = word := by
  rw [List.map_map]
  refine (List.map_congr_left fun c hc => ?_).trans (List.map_id word)
  have halphanum := isAlphanum_of_mem_lowerWords h c hc
  have hupper : c.isUpper = false := by
    rw [isUpper_eq halphanum, isLower_of_mem_lowerWords h c hc]
    simp
  rw [Function.comp, toLower_toUpper halphanum, toLower_eq_self halphanum hupper, id]

end

/-! ## Words in capitals -/

/-- A word in capitals: letters or digits, none of them small. -/
structure IsCapitalWord (word : List Char) : Prop where
  ne_nil : word ≠ []
  alphanum : ∀ c ∈ word, c.isAlphanum
  capital : ∀ c ∈ word, c.isLower = false
  kind : ∀ c ∈ word, ∀ d ∈ word, c.isDigit = d.isDigit

private theorem IsCapitalWord.tail {c d : Char} {word : List Char}
    (h : IsCapitalWord (c :: d :: word)) :
    IsCapitalWord (d :: word) where
  ne_nil := List.cons_ne_nil d word
  alphanum := (List.forall_mem_cons.1 h.alphanum).2
  capital := (List.forall_mem_cons.1 h.capital).2
  kind e he f hf := h.kind e (List.mem_cons_of_mem _ he) f (List.mem_cons_of_mem _ hf)

/-- Between characters of one kind a word ends only where small letters are near. -/
theorem goesOn_of_capital {c d : Char} {rest : List Char} (hc : c.isAlphanum) (hd : d.isAlphanum)
    (hkind : c.isDigit = d.isDigit) (hcapital : c.isLower = false)
    (hrest : ∀ e ∈ rest.head?, e.isLower = false) : goesOn c (d :: rest) := by
  have hnext : rest.head?.any Char.isLower = false := by
    rw [Option.any_eq_false]
    exact hrest
  simp [goesOn, isHump, hd, isAlpha_eq hc, isAlpha_eq hd, hkind, hcapital, hnext]

/-- A word in capitals is one word of a text that does not go on with a letter or digit. -/
theorem words_append {word rest : List Char} (h : IsCapitalWord word)
    (hrest : ∀ e ∈ rest.head?, e.isAlphanum = false) : words (word ++ rest) = word :: words rest := by
  induction word with
  | nil => exact absurd rfl h.ne_nil
  | cons c word ih =>
    have hc := h.alphanum c List.mem_cons_self
    cases word with
    | nil =>
      have hends : goesOn c rest = false := by
        cases rest with
        | nil => rfl
        | cons d rest => simp [goesOn, hrest d rfl]
      rw [List.singleton_append, words, if_pos hc, hends, if_neg Bool.false_ne_true]
    | cons d word =>
      have hd : d ∈ c :: d :: word := List.mem_cons_of_mem _ List.mem_cons_self
      have hnext : ∀ e ∈ (word ++ rest).head?, e.isLower = false := by
        intro e he
        rcases word with - | ⟨first, word⟩
        · exact isLower_of_not_isAlphanum (hrest e he)
        · obtain rfl : first = e := Option.some.inj he
          exact h.capital first (by simp)
      have hgoes : goesOn c (d :: word ++ rest) :=
        goesOn_of_capital hc (h.alphanum d hd) (h.kind c List.mem_cons_self d hd)
          (h.capital c List.mem_cons_self) hnext
      rw [List.cons_append, words, if_pos hc, if_pos hgoes, ih h.tail, glue]

/-- Words in capitals are told apart by the underscores between them. -/
theorem words_intercalate {parts : List (List Char)} (h : ∀ word ∈ parts, IsCapitalWord word) :
    words (['_'].intercalate parts) = parts := by
  induction parts with
  | nil => rfl
  | cons word rest ih =>
    obtain ⟨hword, hrest⟩ := List.forall_mem_cons.1 h
    cases rest with
    | nil =>
      have hone : words (word ++ []) = word :: words [] := words_append hword nofun
      rw [List.append_nil] at hone
      rw [List.intercalate_singleton, hone, words]
    | cons next rest =>
      rw [List.intercalate_cons_cons, List.append_assoc, words_append hword (by simp),
        List.singleton_append, words, if_neg (by decide), ih hrest]

/-! ## Upper-case forms -/

/-- A word of a text becomes one in capitals in upper case. -/
theorem isCapitalWord_toUpper {raw : String} {word : List Char} (h : word ∈ lowerWords raw) :
    IsCapitalWord (word.map Char.toUpper) where
  ne_nil := by simpa using ne_nil_of_mem_lowerWords h
  alphanum := List.forall_mem_map.2 fun c hc =>
    (isAlphanum_casing (isAlphanum_of_mem_lowerWords h c hc)).2.1
  capital := List.forall_mem_map.2 fun c hc =>
    (isAlphanum_casing (isAlphanum_of_mem_lowerWords h c hc)).2.2
  kind := by
    have halphanum := isAlphanum_of_mem_lowerWords h
    simp only [List.forall_mem_map]
    intro c hc d hd
    rw [isDigit_toUpper (halphanum c hc), isDigit_toUpper (halphanum d hd)]
    exact isDigit_eq_of_mem_lowerWords h c hc d hd

private theorem map_toUpper_intercalate (parts : List (List Char)) :
    (['_'].intercalate parts).map Char.toUpper =
      ['_'].intercalate (parts.map (·.map Char.toUpper)) := by
  induction parts with
  | nil => rfl
  | cons word rest ih =>
    cases rest with
    | nil => simp
    | cons next rest =>
      simp only [List.map_cons, List.intercalate_cons_cons, List.map_append] at ih ⊢
      rw [ih]
      rfl

theorem lowerWords_upperSnakeCase (raw : String) :
    lowerWords (upperSnakeCase raw) = lowerWords raw := by
  have hparts : ∀ word ∈ (lowerWords raw).map (·.map Char.toUpper), IsCapitalWord word :=
    List.forall_mem_map.2 fun word hword => isCapitalWord_toUpper hword
  -- The words are read back in capitals, and in lower case they are what they were.
  rw [lowerWords, upperSnakeCase, String.toList_ofList, map_toUpper_intercalate,
    words_intercalate hparts, List.map_map]
  exact (List.map_congr_left fun word hword => map_toLower_toUpper_of_mem_lowerWords hword).trans
    (List.map_id _)

/-- The words of a text are its letters and digits, in order and in lower case. No word is empty,
and each consists of letters or of digits. Its upper-case form has the same words. -/
theorem tokens_lossless (raw : String) :
    String.join (tokens raw) =
        String.ofList ((raw.toList.filter Char.isAlphanum).map Char.toLower) ∧
      (∀ token ∈ tokens raw, token ≠ "" ∧
        ((∀ c ∈ token.toList, c.isLower) ∨ ∀ c ∈ token.toList, c.isDigit)) ∧
      tokens (upperSnakeCase raw) = tokens raw := by
  refine ⟨?_, fun token htoken => ?_, ?_⟩
  · rw [← String.toList_inj, String.toList_join, String.toList_ofList, ← flatten_lowerWords, tokens,
      List.flatMap_map]
    simp
  · obtain ⟨word, hword, rfl⟩ := List.mem_map.1 htoken
    rw [String.toList_ofList]
    refine ⟨fun hempty => ne_nil_of_mem_lowerWords hword ?_,
      isLower_or_isDigit_of_mem_lowerWords hword⟩
    simpa using hempty
  · rw [tokens, lowerWords_upperSnakeCase, tokens]

/-- Capitals that end before a small letter, and a letter behind a digit. -/
theorem tokens_lossless_acronym :
    tokens "HTTPServer-2nd" = ["http", "server", "2", "nd"] ∧
      String.join (tokens "HTTPServer-2nd") = "httpserver2nd" ∧
      ("2" ∈ tokens "HTTPServer-2nd" ∧ "2" ≠ "" ∧
        ((∀ c ∈ "2".toList, c.isLower) ∨ ∀ c ∈ "2".toList, c.isDigit)) ∧
      tokens (upperSnakeCase "HTTPServer-2nd") = tokens "HTTPServer-2nd" := by
  have htokens : tokens "HTTPServer-2nd" = ["http", "server", "2", "nd"] := by decide +kernel
  have hmem : "2" ∈ tokens "HTTPServer-2nd" := by
    rw [htokens]
    decide
  obtain ⟨hjoin, hkinds, hupper⟩ := tokens_lossless "HTTPServer-2nd"
  exact ⟨htokens, hjoin, ⟨hmem, hkinds "2" hmem⟩, hupper⟩

end Stubwright.Naming
