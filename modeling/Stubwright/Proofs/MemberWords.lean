import Mathlib.Data.List.Chain
import Stubwright.Proofs.Naming

/-!
# The words of a member

A member is put together from the words of a wire name, and its getter from the words of the member.
Splitting the member again does not always give the words it was made of: capitals that stand next
to each other, as single letters leave them, are read as one word. The getter keeps no more of the
member than these words, and nothing less.

## Main definitions

* `camelJoin` — words put together in the style of a member
* `capitalWords` — the words of a text in which each of them is capitalized
* `CapitalsApart` — a text in which no two capitals stand next to each other

## Main results

* `capitalWords_pascalCase` — capitalized words can be told apart again
* `getterName_memberName_eq_iff` — members have one getter when they have the same words
* `memberName_eq_of_tokens_eq` — members whose capitals stand apart are told by their words
-/

namespace Stubwright.Naming

open Text

/-! ## Letters in either case -/

/-- A fact about letters and digits is checked on the characters of ASCII. -/
theorem forall_isAlphanum {P : Char → Prop}
    (h : ∀ n < 128, (Char.ofNat n).isAlphanum → P (Char.ofNat n)) {c : Char} (hc : c.isAlphanum) :
    P c := by
  have hat := h c.toNat (toNat_lt_of_isAlphanum hc)
  rw [Char.ofNat_toNat] at hat
  exact hat hc

private theorem isAlphanum_of_isLower {c : Char} (h : c.isLower) : c.isAlphanum := by
  have hclasses : c.isAlphanum = (c.isUpper || c.isLower || c.isDigit) := rfl
  simp [hclasses, h]

/-- What separates words is no small letter. -/
theorem isLower_of_not_isAlphanum {c : Char} (h : c.isAlphanum = false) : c.isLower = false := by
  cases hlower : c.isLower with
  | false => rfl
  | true => simp [isAlphanum_of_isLower hlower] at h

section

variable {c : Char} (h : c.isAlphanum)

include h

private theorem toLower_toLower : c.toLower.toLower = c.toLower :=
  forall_isAlphanum (P := fun c => c.toLower.toLower = c.toLower) (by decide) h

theorem toLower_toUpper : c.toUpper.toLower = c.toLower :=
  forall_isAlphanum (P := fun c => c.toUpper.toLower = c.toLower) (by decide) h

theorem isDigit_toLower : c.toLower.isDigit = c.isDigit :=
  forall_isAlphanum (P := fun c => c.toLower.isDigit = c.isDigit) (by decide) h

theorem isDigit_toUpper : c.toUpper.isDigit = c.isDigit :=
  forall_isAlphanum (P := fun c => c.toUpper.isDigit = c.isDigit) (by decide) h

/-- In lower case, a letter is small and a digit is still a digit. -/
theorem isLower_toLower : c.toLower.isLower = !c.isDigit :=
  forall_isAlphanum (P := fun c => c.toLower.isLower = !c.isDigit) (by decide) h

private theorem isUpper_toLower : c.toLower.isUpper = false :=
  forall_isAlphanum (P := fun c => c.toLower.isUpper = false) (by decide) h

/-- Only capitals change in lower case. -/
theorem toLower_eq_self : c.isUpper = false → c.toLower = c :=
  forall_isAlphanum (P := fun c => c.isUpper = false → c.toLower = c) (by decide) h

/-- Only small letters change in upper case. -/
theorem toUpper_toLower : c.isLower = false → c.toLower.toUpper = c :=
  forall_isAlphanum (P := fun c => c.isLower = false → c.toLower.toUpper = c) (by decide) h

/-- A letter or digit is of one class: a digit, a small letter or a capital. -/
theorem isUpper_eq : c.isUpper = (!c.isDigit && !c.isLower) :=
  forall_isAlphanum (P := fun c => c.isUpper = (!c.isDigit && !c.isLower)) (by decide) h

theorem isAlpha_eq : c.isAlpha = !c.isDigit :=
  forall_isAlphanum (P := fun c => c.isAlpha = !c.isDigit) (by decide) h

private theorem isDigit_imp : c.isDigit → c.isLower = false :=
  forall_isAlphanum (P := fun c => c.isDigit → c.isLower = false) (by decide) h

end

/-! ## Words in lower case -/

/-- The words of a text in lower case. -/
def lowered (cs : List Char) : List (List Char) := (words cs).map (·.map Char.toLower)

/-- Words put together in the style of a member: every word but the first is capitalized. -/
def camelJoin : List (List Char) → List Char
  | [] => []
  | word :: rest => word ++ rest.flatMap capitalize

private theorem lowerWords_eq (raw : String) : lowerWords raw = lowered raw.toList := rfl

private theorem toList_pascalCase (raw : String) :
    (pascalCase raw).toList = (lowered raw.toList).flatMap capitalize := by
  rw [pascalCase, String.toList_ofList, lowerWords_eq]

private theorem toList_camelCase (raw : String) :
    (camelCase raw).toList = camelJoin (lowered raw.toList) := by
  rw [camelCase, lowerWords_eq]
  cases lowered raw.toList with
  | nil => rfl
  | cons word rest => rw [camelJoin, String.toList_ofList]

private theorem camelJoin_glue (c : Char) (parts : List (List Char)) :
    camelJoin (glue c parts) = c :: camelJoin parts := by
  cases parts <;> rfl

private theorem flatMap_capitalize_glue (c : Char) (parts : List (List Char)) :
    (glue c parts).flatMap capitalize = c.toUpper :: camelJoin parts := by
  cases parts <;> rfl

private theorem map_glue (c : Char) (parts : List (List Char)) :
    (glue c parts).map (·.map Char.toLower) = glue c.toLower (parts.map (·.map Char.toLower)) := by
  cases parts <;> rfl

section

variable {c : Char} {rest : List Char}

private theorem lowered_of_not_isAlphanum (h : c.isAlphanum = false) :
    lowered (c :: rest) = lowered rest := by
  rw [lowered, words, if_neg (by simp [h])]
  rfl

private theorem lowered_of_goesOn (h : c.isAlphanum) (hgoes : goesOn c rest) :
    lowered (c :: rest) = glue c.toLower (lowered rest) := by
  rw [lowered, words, if_pos h, if_pos hgoes, map_glue]
  rfl

private theorem lowered_of_not_goesOn (h : c.isAlphanum) (hgoes : goesOn c rest = false) :
    lowered (c :: rest) = [c.toLower] :: lowered rest := by
  rw [lowered, words, if_pos h, if_neg (by simp [hgoes])]
  rfl

end

/-- The words of a text that begins with a letter or digit begin with it. -/
theorem exists_camelJoin_lowered {c : Char} (rest : List Char) (h : c.isAlphanum) :
    ∃ tail, camelJoin (lowered (c :: rest)) = c.toLower :: tail ∧
      (lowered (c :: rest)).flatMap capitalize = c.toLower.toUpper :: tail := by
  cases hgoes : goesOn c rest with
  | true =>
    rw [lowered_of_goesOn h hgoes, camelJoin_glue, flatMap_capitalize_glue]
    exact ⟨_, rfl, rfl⟩
  | false =>
    rw [lowered_of_not_goesOn h hgoes]
    exact ⟨_, rfl, rfl⟩

/-! ## Where words end -/

section

variable {c d : Char} {rest : List Char}

/-- A word goes on with characters of one kind, and with a capital only behind capitals. -/
theorem of_goesOn (hc : c.isAlphanum) (h : goesOn c (d :: rest)) :
    d.isAlphanum ∧ d.isDigit = c.isDigit ∧ (d.isUpper → c.isUpper) := by
  simp only [goesOn, isHump, Bool.and_eq_true, Bool.not_eq_true', Bool.or_eq_false_iff] at h
  obtain ⟨hd, ⟨⟨hcase, hletter⟩, hdigit⟩, -⟩ := h
  rw [isAlpha_eq hc] at hletter
  rw [isAlpha_eq hd] at hdigit
  refine ⟨hd, ?_, fun hupper => ?_⟩
  · cases hcd : c.isDigit <;> cases hdd : d.isDigit <;> simp_all
  · have hsmall : c.isLower = false := by simpa [hupper] using hcase
    have hnodigit : c.isDigit = false := by
      rw [isUpper_eq hd, Bool.and_eq_true, Bool.not_eq_true'] at hupper
      simpa [hupper.1] using hdigit
    rw [isUpper_eq hc, hsmall, hnodigit]
    rfl

/-- A word that ends is followed by a digit only behind a letter, and by a small letter only behind
a digit. -/
theorem of_not_goesOn (hc : c.isAlphanum) (hd : d.isAlphanum)
    (h : goesOn c (d :: rest) = false) :
    (d.isDigit → c.isDigit = false) ∧ (d.isLower → c.isDigit) := by
  have hhump : isHump c d rest.head? := by simpa [goesOn, hd] using h
  rw [isHump, isAlpha_eq hc, isAlpha_eq hd, isUpper_eq hc, isUpper_eq hd] at hhump
  have hsmall := isDigit_imp hd
  cases hcd : c.isDigit <;> cases hdd : d.isDigit <;> cases hdl : d.isLower <;> simp_all

end

/-! ## Capitalized words -/

/-- Whether the word that ends with `c` goes on in the text after it, where every word is
capitalized. -/
def capitalGoesOn (c : Char) : List Char → Bool
  | [] => false
  | d :: _ => d.isLower || (c.isDigit && d.isDigit)

/-- The words of a text in which each of them is capitalized, in lower case. -/
def capitalWords : List Char → List (List Char)
  | [] => []
  | c :: rest =>
    if capitalGoesOn c rest then glue c.toLower (capitalWords rest)
    else [c.toLower] :: capitalWords rest

section

variable {c d x : Char} {rest : List Char} (hc : c.isAlphanum) (hd : d.isAlphanum)
  (hx : x.isDigit = c.isDigit)

include hc hd hx

/-- A word that goes on is seen to go on when it is put together, whatever the case of `c`. -/
theorem capitalGoesOn_camelJoin (h : goesOn c (d :: rest)) :
    capitalGoesOn x (camelJoin (lowered (d :: rest))) := by
  obtain ⟨-, hkind, -⟩ := of_goesOn hc h
  obtain ⟨tail, htail, -⟩ := exists_camelJoin_lowered rest hd
  rw [htail, capitalGoesOn, hx, isLower_toLower hd, isDigit_toLower hd, hkind]
  cases c.isDigit <;> rfl

/-- A word that ends is seen to end, since the next one is capitalized. -/
theorem capitalGoesOn_flatMap_capitalize (h : goesOn c (d :: rest) = false) :
    capitalGoesOn x ((lowered (d :: rest)).flatMap capitalize) = false := by
  have hdigit := (of_not_goesOn hc hd h).1
  have hlow := (isAlphanum_casing hd).1
  obtain ⟨tail, -, hupper⟩ := exists_camelJoin_lowered rest hd
  rw [hupper, capitalGoesOn, hx, (isAlphanum_casing hlow).2.2, isDigit_toUpper hlow,
    isDigit_toLower hd]
  cases hdd : d.isDigit with
  | false => simp
  | true => simp [hdigit hdd]

end

/-- Words of letters and digits are told apart when they are capitalized, whether the first of them
is capitalized as well or not. -/
theorem capitalWords_lowered {cs : List Char} (h : ∀ c ∈ cs, c.isAlphanum) :
    capitalWords (camelJoin (lowered cs)) = lowered cs ∧
      capitalWords ((lowered cs).flatMap capitalize) = lowered cs := by
  induction cs with
  | nil => exact ⟨rfl, rfl⟩
  | cons c rest ih =>
    obtain ⟨hc, hrest⟩ := List.forall_mem_cons.1 h
    obtain ⟨hcamel, hpascal⟩ := ih hrest
    have hlower := (isAlphanum_casing hc).1
    have hupper : c.toLower.toUpper.isDigit = c.isDigit :=
      (isDigit_toUpper hlower).trans (isDigit_toLower hc)
    cases rest with
    | nil =>
      have hword : lowered [c] = [[c.toLower]] := lowered_of_not_goesOn hc rfl
      rw [hword]
      change [[c.toLower.toLower]] = _ ∧ [[c.toLower.toUpper.toLower]] = _
      rw [toLower_toLower hc, toLower_toUpper hlower, toLower_toLower hc]
      exact ⟨rfl, rfl⟩
    | cons d rest =>
      have hd : d.isAlphanum := hrest d List.mem_cons_self
      cases hgoes : goesOn c (d :: rest) with
      | true =>
        rw [lowered_of_goesOn hc hgoes, camelJoin_glue, flatMap_capitalize_glue, capitalWords,
          capitalWords, if_pos (capitalGoesOn_camelJoin hc hd (isDigit_toLower hc) hgoes),
          if_pos (capitalGoesOn_camelJoin hc hd hupper hgoes), hcamel, toLower_toLower hc,
          toLower_toUpper hlower, toLower_toLower hc]
        exact ⟨rfl, rfl⟩
      | false =>
        rw [lowered_of_not_goesOn hc hgoes]
        change capitalWords (c.toLower :: (lowered (d :: rest)).flatMap capitalize) = _ ∧
          capitalWords (c.toLower.toUpper :: (lowered (d :: rest)).flatMap capitalize) = _
        rw [capitalWords, capitalWords,
          capitalGoesOn_flatMap_capitalize hc hd (isDigit_toLower hc) hgoes,
          capitalGoesOn_flatMap_capitalize hc hd hupper hgoes, hpascal, toLower_toLower hc,
          toLower_toUpper hlower, toLower_toLower hc]
        exact ⟨rfl, rfl⟩

/-- Capitalized words can be told apart again, where the text they are of is one run of letters and
digits. -/
theorem capitalWords_pascalCase {raw : String} (h : ∀ c ∈ raw.toList, c.isAlphanum) :
    capitalWords (pascalCase raw).toList = lowerWords raw := by
  rw [toList_pascalCase, lowerWords_eq]
  exact (capitalWords_lowered h).2

/-! ## Text around the words -/

/-- A character behind a text that is no letter or digit belongs to no word. -/
theorem words_append_singleton (cs : List Char) {c : Char} (h : c.isAlphanum = false) :
    words (cs ++ [c]) = words cs := by
  have hsmall := isLower_of_not_isAlphanum h
  have hgoes (first : Char) (rest : List Char) : goesOn first (rest ++ [c]) = goesOn first rest := by
    cases rest with
    | nil => simp [goesOn, h]
    | cons second rest =>
      -- Whether a run of capitals ends is seen from the letter behind it, which `c` is not.
      cases rest <;> simp [goesOn, isHump, hsmall]
  induction cs with
  | nil => simp [words, h]
  | cons first rest ih => simp only [List.cons_append, words, hgoes, ih]

private theorem lowerWords_push (text : String) {c : Char} (h : c.isAlphanum = false) :
    lowerWords (text.push c) = lowerWords text := by
  rw [lowerWords, String.toList_push, words_append_singleton _ h, lowerWords]

private theorem lowerWords_escape (text : String) : lowerWords (escape text) = lowerWords text := by
  unfold escape
  split
  · exact lowerWords_push text rfl
  · rfl

private theorem lowerWords_unescape (text : String) :
    lowerWords (unescape text) = lowerWords text := by
  unfold unescape
  dsimp only
  split
  · rename_i hlast
    split
    · obtain ⟨stem, hstem⟩ := List.getLast?_eq_some_iff.1 hlast
      rw [lowerWords, lowerWords, hstem, List.dropLast_concat, String.toList_ofList,
        words_append_singleton stem rfl]
    · rfl
  · rfl

private theorem lowerWords_lead (text : String) : lowerWords ("_" ++ text) = lowerWords text := by
  rw [lowerWords_eq, lowerWords_eq, String.toList_append]
  exact lowered_of_not_isAlphanum rfl

/-! ## Members and their getters -/

private theorem pascalCase_unescape (text : String) :
    pascalCase (unescape text) = pascalCase text := by
  rw [pascalCase, pascalCase, lowerWords_unescape]

/-- No getter but that of `class` ends in an underscore. -/
theorem get_append_pascalCase_ne (text : String) : "get" ++ pascalCase text ≠ "getClass_" := by
  intro h
  have hmem : '_' ∈ (pascalCase text).toList := by
    have hlist := congrArg (·.toList.drop 3) h
    rw [String.toList_append] at hlist
    change (pascalCase text).toList = ['C', 'l', 'a', 's', 's', '_'] at hlist
    rw [hlist]
    decide
  exact absurd (isAlphanum_of_mem_pascalCase '_' hmem) (by decide)

/-- A getter is told by the capitalized words of its member. -/
theorem getterName_eq_iff {first second : String} :
    getterName first = getterName second ↔ pascalCase first = pascalCase second := by
  refine ⟨fun h => ?_, fun h => ?_⟩
  · have hget : "get" ++ pascalCase first = "get" ++ pascalCase second := by
      unfold getterName at h
      dsimp only at h
      rw [pascalCase_unescape, pascalCase_unescape] at h
      -- The getter of `class` alone has an underscore, so both members or none have it.
      split at h <;> split at h
      · rename_i hfirst hsecond
        exact hfirst.trans hsecond.symm
      · exact absurd h.symm (get_append_pascalCase_ne second)
      · exact absurd h (get_append_pascalCase_ne first)
      · exact h
    rw [← String.toList_inj, String.toList_append, String.toList_append] at hget
    exact String.toList_inj.1 (List.append_cancel_left hget)
  · unfold getterName
    rw [pascalCase_unescape, pascalCase_unescape, h]

/-! ## Texts in camel case -/

/-- A text in camel case: letters and digits that do not begin with a capital, and no small letter
behind a digit. -/
structure IsCamel (cs : List Char) : Prop where
  alphanum : ∀ c ∈ cs, c.isAlphanum
  kinds : cs.IsChain fun c d => c.isDigit → d.isLower = false
  head : ∀ c ∈ cs.head?, c.isUpper = false

/-- No two capitals stand next to each other. -/
def CapitalsApart (text : String) : Prop :=
  text.toList.IsChain fun c d => c.isUpper → d.isUpper = false

instance (text : String) : Decidable (CapitalsApart text) :=
  inferInstanceAs (Decidable (List.IsChain _ _))

private theorem head_capitalized (cs : List Char) :
    ∀ c ∈ ((lowered cs).flatMap capitalize).head?, c.isLower = false := by
  induction cs with
  | nil => exact nofun
  | cons first rest ih =>
    by_cases h : first.isAlphanum
    · obtain ⟨tail, -, htail⟩ := exists_camelJoin_lowered rest h
      rw [htail]
      intro c hc
      obtain rfl : first.toLower.toUpper = c := Option.some.inj hc
      exact (isAlphanum_casing (isAlphanum_casing h).1).2.2
    · rwa [lowered_of_not_isAlphanum (by simpa using h)]

private theorem head_camelJoin (cs : List Char) :
    ∀ c ∈ (camelJoin (lowered cs)).head?, c.isUpper = false := by
  induction cs with
  | nil => exact nofun
  | cons first rest ih =>
    by_cases h : first.isAlphanum
    · obtain ⟨tail, htail, -⟩ := exists_camelJoin_lowered rest h
      rw [htail]
      intro c hc
      obtain rfl : first.toLower = c := Option.some.inj hc
      exact isUpper_toLower h
    · rwa [lowered_of_not_isAlphanum (by simpa using h)]

/-- Behind a digit words are put together with another digit or with a capital. -/
theorem isChain_lowered (cs : List Char) :
    (camelJoin (lowered cs)).IsChain (fun c d => c.isDigit → d.isLower = false) ∧
      ((lowered cs).flatMap capitalize).IsChain fun c d => c.isDigit → d.isLower = false := by
  induction cs with
  | nil => exact ⟨.nil, .nil⟩
  | cons c rest ih =>
    obtain ⟨hcamel, hpascal⟩ := ih
    by_cases hc : c.isAlphanum
    · have hlower := (isAlphanum_casing hc).1
      cases hgoes : goesOn c rest with
      | true =>
        rw [lowered_of_goesOn hc hgoes, camelJoin_glue, flatMap_capitalize_glue]
        cases rest with
        | nil => cases hgoes
        | cons d rest =>
          obtain ⟨hd, hkind, -⟩ := of_goesOn hc hgoes
          obtain ⟨tail, htail, -⟩ := exists_camelJoin_lowered rest hd
          have hnext (x : Char) (hx : x.isDigit = c.isDigit) :
              ∀ y ∈ (camelJoin (lowered (d :: rest))).head?, x.isDigit → y.isLower = false := by
            rw [htail, hx]
            intro y hy hdigit
            obtain rfl : d.toLower = y := by simpa using hy
            rw [isLower_toLower hd, hkind, hdigit]
            rfl
          exact ⟨hcamel.cons (hnext _ (isDigit_toLower hc)),
            hcamel.cons (hnext _ ((isDigit_toUpper hlower).trans (isDigit_toLower hc)))⟩
      | false =>
        rw [lowered_of_not_goesOn hc hgoes]
        have hnext := head_capitalized rest
        exact ⟨hpascal.cons fun y hy _ => hnext y hy, hpascal.cons fun y hy _ => hnext y hy⟩
    · rw [lowered_of_not_isAlphanum (by simpa using hc)]
      exact ⟨hcamel, hpascal⟩

private theorem isCamel_camelCase (raw : String) : IsCamel (camelCase raw).toList where
  alphanum := isAlphanum_of_mem_camelCase
  kinds := by
    rw [toList_camelCase]
    exact (isChain_lowered raw.toList).1
  head := by
    rw [toList_camelCase]
    exact head_camelJoin raw.toList

private theorem isCamel_of_isLower {cs : List Char} (h : ∀ c ∈ cs, c.isLower) : IsCamel cs where
  alphanum c hc := isAlphanum_of_isLower (h c hc)
  kinds := by
    have hdigit : ∀ c ∈ cs, c.isDigit = false := by
      intro c hc
      cases hdigit : c.isDigit with
      | false => rfl
      | true =>
        exact absurd (h c hc) (by simp [isDigit_imp (isAlphanum_of_isLower (h c hc)) hdigit])
    refine List.Pairwise.isChain ?_
    exact List.pairwise_of_forall_mem_list fun c hc d _ hcd => absurd hcd (by simp [hdigit c hc])
  head c hc := by
    have hmem := h c (List.mem_of_mem_head? hc)
    rw [isUpper_eq (isAlphanum_of_isLower hmem), hmem]
    simp

/-- A text in camel case whose capitals stand apart is put together from its own words. -/
theorem camelJoin_lowered_eq_self {cs : List Char} (h : IsCamel cs)
    (hapart : cs.IsChain fun c d => c.isUpper → d.isUpper = false) :
    camelJoin (lowered cs) = cs := by
  -- The first letter is of a word that may have begun before it, so that a capital is not kept.
  have hlower : ∀ (rest : List Char) (c : Char), (∀ d ∈ c :: rest, d.isAlphanum) →
      (c :: rest).IsChain (fun c d => c.isDigit → d.isLower = false) →
      (c :: rest).IsChain (fun c d => c.isUpper → d.isUpper = false) →
      camelJoin (lowered (c :: rest)) = c.toLower :: rest := by
    intro rest
    induction rest with
    | nil =>
      intro c hall _ _
      rw [lowered_of_not_goesOn (hall c List.mem_cons_self) rfl]
      rfl
    | cons d rest ih =>
      intro c hall hkinds hcapitals
      obtain ⟨hc, hrest⟩ := List.forall_mem_cons.1 hall
      obtain ⟨hkind, hkinds⟩ := List.isChain_cons_cons.1 hkinds
      obtain ⟨hcapital, hcapitals⟩ := List.isChain_cons_cons.1 hcapitals
      have hd := hrest d List.mem_cons_self
      have hjoin := ih d hrest hkinds hcapitals
      cases hgoes : goesOn c (d :: rest) with
      | true =>
        have hnot : d.isUpper = false := by
          by_contra hupper
          exact hupper (hcapital ((of_goesOn hc hgoes).2.2 (by simpa using hupper)))
        rw [lowered_of_goesOn hc hgoes, camelJoin_glue, hjoin, toLower_eq_self hd hnot]
      | false =>
        have hnot : d.isLower = false := by
          by_contra hsmall
          exact hsmall (hkind ((of_not_goesOn hc hd hgoes).2 (by simpa using hsmall)))
        obtain ⟨tail, htail, hupper⟩ := exists_camelJoin_lowered rest hd
        obtain rfl : rest = tail := by
          rw [hjoin] at htail
          exact (List.cons.inj htail).2
        rw [lowered_of_not_goesOn hc hgoes]
        change c.toLower :: (lowered (d :: rest)).flatMap capitalize = _
        rw [hupper, toUpper_toLower hd hnot]
  cases cs with
  | nil => rfl
  | cons c rest =>
    rw [hlower rest c h.alphanum h.kinds hapart,
      toLower_eq_self (h.alphanum c List.mem_cons_self) (h.head c rfl)]

/-! ## Members -/

/-- The member that a text in camel case becomes. -/
def memberOfCamel (camel : String) : String :=
  escape (if beginsName camel then camel else "_" ++ camel)

private theorem lowerWords_memberOfCamel (camel : String) :
    lowerWords (memberOfCamel camel) = lowerWords camel := by
  rw [memberOfCamel, lowerWords_escape]
  split
  · rfl
  · exact lowerWords_lead camel

/-- The capitals of a member are those of the text in camel case that it was made of. -/
theorem CapitalsApart.of_memberOfCamel {camel : String} (h : CapitalsApart (memberOfCamel camel)) :
    CapitalsApart camel := by
  refine List.IsChain.infix h ?_
  have hescape (text : String) : text.toList <:+: (escape text).toList := by
    unfold escape
    split
    · rw [String.toList_push]
      exact List.infix_append' [] _ _
    · exact List.infix_rfl
  unfold memberOfCamel
  split
  · exact hescape camel
  · refine List.IsInfix.trans ?_ (hescape _)
    rw [String.toList_append]
    exact (List.suffix_append _ _).isInfix

section

variable {fallback : String} (h : ∀ c ∈ fallback.toList, c.isLower)

include h

/-- A member is made of a text in camel case, which is the fallback when there are no words. -/
theorem exists_memberOfCamel (raw : String) :
    ∃ camel : String, IsCamel camel.toList ∧ memberName raw fallback = memberOfCamel camel := by
  unfold memberName
  dsimp only
  by_cases hempty : (camelCase raw).isEmpty
  · rw [hempty]
    exact ⟨fallback, isCamel_of_isLower h, rfl⟩
  · rw [Bool.not_eq_true] at hempty
    rw [hempty]
    exact ⟨camelCase raw, isCamel_camelCase raw, rfl⟩

/-- Two members have one getter exactly when they have the same words. -/
theorem getterName_memberName_eq_iff (raw other : String) :
    getterName (memberName raw fallback) = getterName (memberName other fallback) ↔
      tokens (memberName raw fallback) = tokens (memberName other fallback) := by
  obtain ⟨camel, hcamel, hmember⟩ := exists_memberOfCamel h raw
  obtain ⟨camel', hcamel', hmember'⟩ := exists_memberOfCamel h other
  have htokens : tokens (memberName raw fallback) = tokens (memberName other fallback) ↔
      lowerWords camel = lowerWords camel' := by
    rw [hmember, hmember', tokens, tokens, lowerWords_memberOfCamel, lowerWords_memberOfCamel]
    exact (List.map_injective_iff.2 fun _ _ => String.ofList_inj.1).eq_iff
  have hpascal : pascalCase (memberName raw fallback) = pascalCase (memberName other fallback) ↔
      pascalCase camel = pascalCase camel' := by
    rw [hmember, hmember', pascalCase, pascalCase, lowerWords_memberOfCamel,
      lowerWords_memberOfCamel]
    rfl
  rw [getterName_eq_iff, htokens, hpascal]
  constructor
  · intro hsame
    rw [← capitalWords_pascalCase hcamel.alphanum, hsame, capitalWords_pascalCase hcamel'.alphanum]
  · intro hsame
    rw [pascalCase, pascalCase, hsame]

/-- Members whose capitals stand apart are told by their words. -/
theorem memberName_eq_of_tokens_eq {raw other : String}
    (hraw : CapitalsApart (memberName raw fallback))
    (hother : CapitalsApart (memberName other fallback))
    (htokens : tokens (memberName raw fallback) = tokens (memberName other fallback)) :
    memberName raw fallback = memberName other fallback := by
  obtain ⟨camel, hcamel, hmember⟩ := exists_memberOfCamel h raw
  obtain ⟨camel', hcamel', hmember'⟩ := exists_memberOfCamel h other
  rw [hmember, hmember'] at htokens ⊢
  rw [hmember] at hraw
  rw [hmember'] at hother
  have hwords : lowerWords camel = lowerWords camel' := by
    rw [← lowerWords_memberOfCamel camel, ← lowerWords_memberOfCamel camel']
    exact List.map_injective_iff.2 (fun _ _ => String.ofList_inj.1) htokens
  have hsame : camel.toList = camel'.toList := by
    rw [← camelJoin_lowered_eq_self hcamel hraw.of_memberOfCamel,
      ← camelJoin_lowered_eq_self hcamel' hother.of_memberOfCamel, ← lowerWords_eq,
      ← lowerWords_eq, hwords]
  rw [String.toList_inj.1 hsame]

end

end Stubwright.Naming
