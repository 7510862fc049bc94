import Mathlib.Data.Bool.AllAny
import Mathlib.Data.List.Basic
import Mathlib.Data.List.Nodup
import Mathlib.Data.List.Perm.Subperm
import Stubwright.JavaName
import Stubwright.Naming.Unique

/-!
# Generated names are names

Whatever the wire name is, the text that is made of it is an identifier and not reserved. Every name
that a generated type uses is therefore known as a name before it is read.

## Main definitions

* `Source.Name.unique`, `Source.Name.uniques` — a name that differs from those in use
* `JavaName.typeOf`, `JavaName.memberOf`, `JavaName.getterOf`, `JavaName.constantOf` — the names for
  wire names

## Main results

* `isName_typeName`, `isName_memberName`, `isName_constantName`, `isName_getterName` — the names of
  types, members, constants and getters
* `memberName_eq_memberName`, `memberName_eq_empty` — which wire names take the fallback
* `isName_uniqueName`, `uniqueName_notMem` — a name that is made distinct stays a name, and is free
-/

namespace Stubwright

open Text Source

namespace Naming

/-! ## The characters of words -/

/-- Letters and digits are characters of ASCII. -/
theorem toNat_lt_of_isAlphanum {c : Char} (h : c.isAlphanum) : c.toNat < 128 := by
  have halphanum : c.isAlphanum = (c.isUpper || c.isLower || c.isDigit) := rfl
  have hupper : c.isUpper = decide (c.val ≥ 'A'.val ∧ c.val ≤ 'Z'.val) := rfl
  have hlower : c.isLower = (decide (c.val ≥ 'a'.val) && decide (c.val ≤ 'z'.val)) := rfl
  have hdigit : c.isDigit = (decide (c.val ≥ '0'.val) && decide (c.val ≤ '9'.val)) := rfl
  simp only [halphanum, hupper, hlower, hdigit, Bool.or_eq_true, Bool.and_eq_true,
    decide_eq_true_eq, UInt32.le_iff_toNat_le, ge_iff_le] at h
  change ((65 ≤ c.toNat ∧ c.toNat ≤ 90) ∨ (97 ≤ c.toNat ∧ c.toNat ≤ 122)) ∨
    (48 ≤ c.toNat ∧ c.toNat ≤ 57) at h
  omega

/-- Letters and digits stay letters and digits in either case. -/
theorem isAlphanum_casing {c : Char} (h : c.isAlphanum) :
    c.toLower.isAlphanum ∧ c.toUpper.isAlphanum ∧ c.toUpper.isLower = false := by
  have hall : ∀ n < 128, (Char.ofNat n).isAlphanum → (Char.ofNat n).toLower.isAlphanum ∧
      (Char.ofNat n).toUpper.isAlphanum ∧ (Char.ofNat n).toUpper.isLower = false := by
    decide +kernel
  have hc := hall c.toNat (toNat_lt_of_isAlphanum h)
  rw [Char.ofNat_toNat] at hc
  exact hc h

private theorem isNamePart_of_isAlphanum {c : Char} (h : c.isAlphanum) : isNamePart c := by
  simp [isNamePart, h]

/-- The first word of a text that begins with a letter or digit begins with it. -/
theorem exists_words_cons {c : Char} (rest : List Char) (h : c.isAlphanum) :
    ∃ tail others, words (c :: rest) = (c :: tail) :: others := by
  rw [words, if_pos h]
  split
  · unfold glue
    split
    · exact ⟨[], [], rfl⟩
    · exact ⟨_, _, rfl⟩
  · exact ⟨[], _, rfl⟩

/-- What holds of a single letter or digit, and still holds when a word is begun one character
earlier, holds of every word. -/
theorem forall_mem_words {P : List Char → Prop} (hone : ∀ c, c.isAlphanum → P [c])
    (hmore : ∀ c d rest tail, c.isAlphanum → goesOn c (d :: rest) → P (d :: tail) →
      P (c :: d :: tail)) (cs : List Char) : ∀ word ∈ words cs, P word := by
  fun_induction words cs with
  | case1 => exact List.forall_mem_nil _
  | case2 c rest hc hgoes ih =>
    cases rest with
    | nil => cases hgoes
    | cons d rest =>
      have hd : d.isAlphanum := by
        rw [goesOn, Bool.and_eq_true] at hgoes
        exact hgoes.1
      obtain ⟨tail, others, hwords⟩ := exists_words_cons rest hd
      rw [hwords] at ih ⊢
      obtain ⟨hfirst, hothers⟩ := List.forall_mem_cons.1 ih
      exact List.forall_mem_cons.2 ⟨hmore c d rest tail hc hgoes hfirst, hothers⟩
  | case3 c rest hc _ ih => exact List.forall_mem_cons.2 ⟨hone c hc, ih⟩
  | case4 c rest _ ih => exact ih

/-- Words hold nothing but letters and digits. -/
theorem isAlphanum_of_mem_words {cs word : List Char} (h : word ∈ words cs) :
    ∀ c ∈ word, c.isAlphanum := by
  refine forall_mem_words (P := fun word => ∀ c ∈ word, c.isAlphanum) ?_ ?_ cs word h
  · exact fun c hc => List.forall_mem_singleton.2 hc
  · exact fun c d rest tail hc _ htail => List.forall_mem_cons.2 ⟨hc, htail⟩

/-- Words are made of letters and digits. -/
theorem isAlphanum_of_mem_lowerWords {raw : String} {word : List Char} (h : word ∈ lowerWords raw) :
    ∀ c ∈ word, c.isAlphanum := by
  obtain ⟨source, hsource, rfl⟩ := List.mem_map.1 h
  intro c hc
  obtain ⟨d, hd, rfl⟩ := List.mem_map.1 hc
  exact (isAlphanum_casing (isAlphanum_of_mem_words hsource d hd)).1

private theorem isAlphanum_of_mem_capitalize {word : List Char} (h : ∀ c ∈ word, c.isAlphanum) :
    ∀ c ∈ capitalize word, c.isAlphanum := by
  cases word with
  | nil => exact nofun
  | cons first rest =>
    obtain ⟨hfirst, hrest⟩ := List.forall_mem_cons.1 h
    exact List.forall_mem_cons.2 ⟨(isAlphanum_casing hfirst).2.1, hrest⟩

private theorem isAlphanum_of_mem_flatMap_capitalize {parts : List (List Char)}
    (h : ∀ word ∈ parts, ∀ c ∈ word, c.isAlphanum) :
    ∀ c ∈ parts.flatMap capitalize, c.isAlphanum := by
  intro c hc
  obtain ⟨word, hword, hc⟩ := List.mem_flatMap.1 hc
  exact isAlphanum_of_mem_capitalize (h word hword) c hc

/-- So are words that are joined with a capital each. -/
theorem isAlphanum_of_mem_pascalCase {raw : String} :
    ∀ c ∈ (pascalCase raw).toList, c.isAlphanum := by
  rw [pascalCase, String.toList_ofList]
  exact isAlphanum_of_mem_flatMap_capitalize fun word hword => isAlphanum_of_mem_lowerWords hword

/-- So are words that are joined with a capital behind the first. -/
theorem isAlphanum_of_mem_camelCase {raw : String} :
    ∀ c ∈ (camelCase raw).toList, c.isAlphanum := by
  unfold camelCase
  split
  · exact nofun
  · rename_i first rest heq
    have hwords : ∀ word ∈ first :: rest, ∀ c ∈ word, c.isAlphanum := by
      rw [← heq]
      exact fun word hword => isAlphanum_of_mem_lowerWords hword
    obtain ⟨hfirst, hrest⟩ := List.forall_mem_cons.1 hwords
    rw [String.toList_ofList]
    exact List.forall_mem_append.2 ⟨hfirst, isAlphanum_of_mem_flatMap_capitalize hrest⟩

private theorem mem_intercalate_underscore {parts : List (List Char)}
    (h : ∀ word ∈ parts, ∀ c ∈ word, c.isAlphanum) :
    ∀ c ∈ ['_'].intercalate parts, c = '_' ∨ c.isAlphanum := by
  induction parts with
  | nil => exact nofun
  | cons word rest ih =>
    obtain ⟨hword, hrest⟩ := List.forall_mem_cons.1 h
    by_cases hnil : rest = []
    · subst hnil
      rw [List.intercalate_singleton]
      exact fun c hc => .inr (hword c hc)
    · rw [List.intercalate_cons_of_ne_nil hnil, List.forall_mem_append, List.forall_mem_append]
      exact ⟨⟨fun c hc => .inr (hword c hc), by simp⟩, ih hrest⟩

/-- The upper-case form holds underscores, digits and letters in upper case. -/
theorem mem_upperSnakeCase {raw : String} :
    ∀ c ∈ (upperSnakeCase raw).toList, isNamePart c ∧ c.isLower = false := by
  intro c hc
  rw [upperSnakeCase, String.toList_ofList] at hc
  obtain ⟨d, hd, rfl⟩ := List.mem_map.1 hc
  rcases mem_intercalate_underscore (fun word hword => isAlphanum_of_mem_lowerWords hword) d hd
    with rfl | hd
  · decide
  · obtain ⟨-, hupper, hlower⟩ := isAlphanum_casing hd
    exact ⟨isNamePart_of_isAlphanum hupper, hlower⟩

/-! ## Identifiers -/

/-- A text made of name parts is an identifier behind a text that begins like one. -/
theorem isIdentifier_append {lead rest : List Char} (hlead : isIdentifier lead)
    (hrest : ∀ c ∈ rest, isNamePart c) : isIdentifier (lead ++ rest) := by
  cases lead with
  | nil => cases hlead
  | cons first others =>
    simp only [isIdentifier, List.cons_append, Bool.and_eq_true, List.all_eq_true,
      List.forall_mem_append] at hlead ⊢
    exact ⟨hlead.1, hlead.2, hrest⟩

/-- Every character of an identifier is one that may stand in names. -/
theorem isNamePart_of_isIdentifier {cs : List Char} (h : isIdentifier cs) :
    ∀ c ∈ cs, isNamePart c := by
  cases cs with
  | nil => exact nofun
  | cons first rest =>
    simp only [isIdentifier, Bool.and_eq_true, List.all_eq_true] at h
    exact List.forall_mem_cons.2 ⟨isNamePart_of_isNameStart h.1, h.2⟩

/-- A text of name parts that does not begin like an identifier gets a lead that does. -/
theorem isIdentifier_lead {lead shaped : String} (hlead : isIdentifier lead.toList)
    (hshaped : ∀ c ∈ shaped.toList, isNamePart c) :
    isIdentifier (if beginsName shaped then shaped else lead ++ shaped).toList := by
  split
  · rename_i hbegins
    unfold beginsName at hbegins
    cases hcs : shaped.toList with
    | nil => simp [hcs] at hbegins
    | cons first rest =>
      rw [hcs] at hbegins hshaped
      simp only [isIdentifier, Bool.and_eq_true, List.all_eq_true]
      exact ⟨by simpa using hbegins, (List.forall_mem_cons.1 hshaped).2⟩
  · rw [String.toList_append]
    exact isIdentifier_append hlead hshaped

/-- An identifier is a name once it is escaped. -/
theorem isName_escape {text : String} (h : isIdentifier text.toList) : IsName (escape text) := by
  refine ⟨?_, isReserved_escape text⟩
  unfold escape
  split
  · rw [String.toList_push]
    exact isIdentifier_append h (by simp [escapeMarker, isNamePart])
  · exact h

/-! ## The names of a generated type -/

/-- Whatever it is made of, the name of a type is a name. -/
theorem isName_typeName (raw : String) : IsName (typeName raw) := by
  unfold typeName
  refine isName_escape (isIdentifier_lead (by decide) ?_)
  split
  · exact List.all_eq_true.1 (by decide)
  · exact fun c hc => isNamePart_of_isAlphanum (isAlphanum_of_mem_pascalCase c hc)

/-- The name of a member, where the fallback is an identifier. -/
theorem isName_memberName (raw : String) {fallback : String}
    (h : isIdentifier fallback.toList) : IsName (memberName raw fallback) := by
  unfold memberName
  refine isName_escape (isIdentifier_lead (by decide) ?_)
  split
  · exact isNamePart_of_isIdentifier h
  · exact fun c hc => isNamePart_of_isAlphanum (isAlphanum_of_mem_camelCase c hc)

/-- Every reserved word but the underscore holds a lower-case letter. -/
theorem isReserved_of_upper {text : String} (h : ∀ c ∈ text.toList, c.isLower = false)
    (hne : text ≠ "_") : isReserved text = false := by
  have hall : reservedWords.all fun word => word = "_" || word.toList.any Char.isLower := by
    decide +kernel
  rw [← Bool.not_eq_true, isReserved_iff]
  intro hmem
  have hword := List.all_eq_true.1 hall text hmem
  rw [Bool.or_eq_true, decide_eq_true_iff, List.any_eq_true] at hword
  rcases hword with heq | ⟨c, hc, hlower⟩
  · exact hne heq
  · simp [h c hc] at hlower

/-- No word is empty. -/
theorem ne_nil_of_mem_lowerWords {raw : String} {word : List Char} (h : word ∈ lowerWords raw) :
    word ≠ [] := by
  obtain ⟨source, hsource, rfl⟩ := List.mem_map.1 h
  simpa using ne_nil_of_mem_words hsource

/-- The upper-case form never begins with an underscore. -/
theorem head?_upperSnakeCase_ne (raw : String) : (upperSnakeCase raw).toList.head? ≠ some '_' := by
  rw [upperSnakeCase, String.toList_ofList, List.head?_map]
  intro h
  obtain ⟨c, hc, hupper⟩ := Option.map_eq_some_iff.1 h
  have hword : c.isAlphanum := by
    cases hlist : lowerWords raw with
    | nil => simp [hlist] at hc
    | cons word rest =>
      have hmem : word ∈ lowerWords raw := by simp [hlist]
      have hhead : (['_'].intercalate (word :: rest)).head? = word.head? := by
        by_cases hrest : rest = []
        · rw [hrest, List.intercalate_singleton]
        · rw [List.intercalate_cons_of_ne_nil hrest, List.append_assoc,
            List.head?_append_of_ne_nil _ (ne_nil_of_mem_lowerWords hmem)]
      rw [hlist, hhead] at hc
      exact isAlphanum_of_mem_lowerWords hmem c (List.mem_of_head? hc)
  have hcase := (isAlphanum_casing hword).2.1
  rw [hupper] at hcase
  exact absurd hcase (by decide)

private theorem isName_lead_value {shaped : String} (hne : shaped ≠ "_")
    (h : ∀ c ∈ shaped.toList, isNamePart c ∧ c.isLower = false) :
    IsName (if beginsName shaped then shaped else "V_" ++ shaped) := by
  refine ⟨isIdentifier_lead (by decide) fun c hc => (h c hc).1, ?_⟩
  split
  · exact isReserved_of_upper (fun c hc => (h c hc).2) hne
  · apply isReserved_of_upper
    · rw [String.toList_append, List.forall_mem_append]
      exact ⟨List.all_iff_forall_prop.1 (by decide), fun c hc => (h c hc).2⟩
    · intro heq
      have hhead := congrArg (·.toList.head?) heq
      simp at hhead

/-- A constant is never escaped, since what it is made of is not reserved. -/
theorem isName_constantName (raw : String) : IsName (constantName raw) := by
  unfold constantName
  dsimp only
  by_cases h : (upperSnakeCase raw).isEmpty
  · simp only [h, if_true]
    exact isName_lead_value (by decide) (List.all_iff_forall_prop.1 (by decide))
  · simp only [h, Bool.false_eq_true, if_false]
    refine isName_lead_value (fun heq => head?_upperSnakeCase_ne raw ?_) mem_upperSnakeCase
    rw [heq]
    decide

/-- No reserved word begins like a getter. -/
theorem isName_getterName (member : String) : IsName (getterName member) := by
  unfold getterName
  dsimp only
  split
  · decide
  · refine ⟨?_, ?_⟩
    · rw [String.toList_append]
      exact isIdentifier_append (by decide)
        fun c hc => isNamePart_of_isAlphanum (isAlphanum_of_mem_pascalCase c hc)
    · -- The first three letters are enough to tell a getter from every reserved word.
      have hall : ∀ word ∈ reservedWords, word.toList.take 3 ≠ ['g', 'e', 't'] := by decide +kernel
      rw [← Bool.not_eq_true, isReserved_iff]
      intro hmem
      apply hall _ hmem
      rw [String.toList_append]
      rfl

/-! ## Wire names without words -/

/-- There are no words exactly where there are no letters and digits. -/
theorem words_eq_nil_iff {cs : List Char} : words cs = [] ↔ ¬ ∃ c ∈ cs, c.isAlphanum := by
  fun_induction words cs with
  | case1 => simp
  | case2 c rest hc =>
    have hglue : glue c (words rest) ≠ [] := by
      unfold glue
      split <;> simp
    exact iff_of_false hglue fun h => h ⟨c, List.mem_cons_self, hc⟩
  | case3 c rest hc =>
    exact iff_of_false (List.cons_ne_nil _ _) fun h => h ⟨c, List.mem_cons_self, hc⟩
  | case4 c rest hc ih => simp [ih, hc]

private theorem lowerWords_eq_nil_iff {raw : String} :
    lowerWords raw = [] ↔ ¬ ∃ c ∈ raw.toList, c.isAlphanum :=
  List.map_eq_nil_iff.trans words_eq_nil_iff

private theorem camelCase_eq_empty_iff {raw : String} :
    camelCase raw = "" ↔ ¬ ∃ c ∈ raw.toList, c.isAlphanum := by
  rw [← lowerWords_eq_nil_iff]
  unfold camelCase
  split
  · rename_i hnil
    exact iff_of_true rfl hnil
  · rename_i word rest hcons
    have hword : word ≠ [] := ne_nil_of_mem_lowerWords (hcons ▸ List.mem_cons_self)
    rw [hcons]
    refine iff_of_false (fun hempty => ?_) (List.cons_ne_nil _ _)
    have hlist := congrArg String.toList hempty
    rw [String.toList_ofList] at hlist
    exact hword (List.append_eq_nil_iff.1 hlist).1

/-- The fallback does not matter to a wire name that has words. -/
theorem memberName_eq_memberName {raw : String} (h : ∃ c ∈ raw.toList, c.isAlphanum)
    (first second : String) : memberName raw first = memberName raw second := by
  have hcamel : (camelCase raw).isEmpty = false := by
    rw [← Bool.not_eq_true, String.isEmpty_iff, camelCase_eq_empty_iff, not_not]
    exact h
  unfold memberName
  dsimp only
  rw [hcamel, if_neg Bool.false_ne_true, if_neg Bool.false_ne_true]

/-- A wire name without words is as good as none. -/
theorem memberName_eq_empty {raw : String} (h : ¬ ∃ c ∈ raw.toList, c.isAlphanum)
    (fallback : String) : memberName raw fallback = memberName "" fallback := by
  have hempty : camelCase "" = "" := rfl
  unfold memberName
  rw [camelCase_eq_empty_iff.2 h, hempty]

/-! ## Distinct names -/

/-- A numbered name stays a name, since no reserved word ends in a digit. -/
theorem isName_numbered {base : String} (h : IsName base) (k : Nat) : IsName (numbered base k) := by
  have hdigits : (toString k).toList = Nat.toDigits 10 k := by
    rw [Nat.toString_eq_repr, Nat.toList_repr]
  have hdigit : ∀ c ∈ Nat.toDigits 10 k, c.isDigit :=
    fun c hc => Nat.isDigit_of_mem_toDigits (by decide) (by decide) hc
  refine ⟨?_, ?_⟩
  · rw [numbered, String.toList_append, hdigits]
    refine isIdentifier_append h.1 fun c hc => isNamePart_of_isAlphanum ?_
    simp [Char.isAlphanum, hdigit c hc]
  · have hall : ∀ word ∈ reservedWords, (word.toList.getLast?.any Char.isDigit) = false := by
      decide +kernel
    rw [← Bool.not_eq_true, isReserved_iff]
    intro hmem
    have hlast := hall _ hmem
    rw [numbered, String.toList_append, hdigits, List.getLast?_append,
      List.getLast?_eq_some_getLast Nat.toDigits_ne_nil] at hlast
    simp [hdigit _ (List.getLast_mem Nat.toDigits_ne_nil)] at hlast

/-- Different numbers behind a base make different names. -/
theorem numbered_injective (base : String) : Function.Injective (numbered base) := by
  intro k l h
  have hdigits : Nat.toDigits 10 k = Nat.toDigits 10 l := by
    rw [← Nat.toList_repr, ← Nat.toList_repr]
    exact congrArg String.toList ((String.append_right_inj base).1 h)
  calc k = Nat.ofDigitChars 10 (Nat.toDigits 10 k) 0 := Nat.ofDigitChars_ten_toDigits.symm
    _ = Nat.ofDigitChars 10 (Nat.toDigits 10 l) 0 := by rw [hdigits]
    _ = l := Nat.ofDigitChars_ten_toDigits

/-- One number more than there are names in use is tried, so one of the numbered names is free, and
the first of these is the answer. -/
theorem exists_firstFree (base : String) (used : List String) :
    ∃ k, firstFree base used = numbered base (k + 2) ∧ numbered base (k + 2) ∉ used ∧
      ∀ j < k, numbered base (j + 2) ∈ used := by
  unfold firstFree
  dsimp only
  rw [List.find?_map]
  cases hfind : (List.range (used.length + 1)).find?
      ((fun name => !used.contains name) ∘ fun k => numbered base (k + 2)) with
  | none =>
    have hused : ((List.range (used.length + 1)).map fun k => numbered base (k + 2)) ⊆ used := by
      intro name hname
      obtain ⟨k, hk, rfl⟩ := List.mem_map.1 hname
      simpa using List.find?_eq_none.1 hfind k hk
    -- If all candidates were in use, there would be more of them than names in use.
    have hdistinct : ((List.range (used.length + 1)).map fun k => numbered base (k + 2)).Nodup :=
      List.Nodup.map (fun k l h => Nat.add_right_cancel (numbered_injective base h))
        List.nodup_range
    have hlength := (hdistinct.subperm hused).length_le
    rw [List.length_map, List.length_range] at hlength
    exact absurd hlength (Nat.not_succ_le_self used.length)
  | some k =>
    obtain ⟨hfree, -, htaken⟩ := List.find?_range_eq_some.1 hfind
    exact ⟨k, rfl, by simpa using hfree, fun j hj => by simpa using htaken j hj⟩

theorem isName_uniqueName {base : String} (h : IsName base) (used : List String) :
    IsName (uniqueName base used) := by
  unfold uniqueName
  split
  · obtain ⟨k, hname, -, -⟩ := exists_firstFree base used
    rw [hname]
    exact isName_numbered h (k + 2)
  · exact h

private theorem firstFree_notMem (base : String) (used : List String) :
    firstFree base used ∉ used := by
  obtain ⟨k, hname, hfree, -⟩ := exists_firstFree base used
  rwa [hname]

/-- A name that was made distinct is not in use. -/
theorem uniqueName_notMem (base : String) (used : List String) : uniqueName base used ∉ used := by
  unfold uniqueName
  split
  · exact firstFree_notMem base used
  · rename_i hfree
    simpa using hfree

/-- Names that are made distinct in turn differ from each other and from those in use. -/
theorem nodup_uniqueNames (used bases : List String) :
    (uniqueNames used bases).Nodup ∧ ∀ name ∈ uniqueNames used bases, name ∉ used := by
  induction bases generalizing used with
  | nil => exact ⟨List.nodup_nil, fun _ => nofun⟩
  | cons base rest ih =>
    obtain ⟨hrest, hfree⟩ := ih (uniqueName base used :: used)
    refine ⟨List.nodup_cons.2 ⟨fun hmem => hfree _ hmem List.mem_cons_self, hrest⟩, ?_⟩
    rintro name (_ | ⟨_, hmem⟩)
    · exact uniqueName_notMem base used
    · exact fun hused => hfree name hmem (List.mem_cons_of_mem _ hused)

/-- Of items with names of their own, just one has the name of a given one. -/
theorem filter_eq_singleton {α κ : Type} [DecidableEq κ] {name : α → κ} {items : List α}
    (h : (items.map name).Nodup) {item : α} (hitem : item ∈ items) :
    items.filter (fun other => name other = name item) = [item] := by
  obtain ⟨before, after, rfl⟩ := List.append_of_mem hitem
  rw [List.map_append, List.map_cons, List.nodup_middle, List.nodup_cons, ← List.map_append] at h
  have hother : ∀ other ∈ before ++ after, name other ≠ name item :=
    fun other hmem heq => h.1 (heq ▸ List.mem_map_of_mem hmem)
  obtain ⟨hbefore, hafter⟩ := List.forall_mem_append.1 hother
  rw [List.filter_append, List.filter_cons_of_pos (by simp),
    List.filter_eq_nil_iff.2 (by simpa using hbefore),
    List.filter_eq_nil_iff.2 (by simpa using hafter), List.nil_append]

end Naming

/-! ## Names for wire names -/

namespace Source.Name

/-- Names with the same text are the same name. -/
theorem text_injective : Function.Injective Name.text := by
  rintro ⟨text, -⟩ ⟨_, -⟩ rfl
  rfl

open Naming

/-- The name itself when it is free, and otherwise the least numbered one that is. -/
def unique (base : Name) (used : List String) : Name :=
  ⟨uniqueName base.text used, isName_uniqueName base.isName used⟩

/-- A name of its own for every base in turn. -/
def uniques (used : List String) : List Name → List Name
  | [] => []
  | base :: rest =>
    let name := base.unique used
    name :: uniques (name.text :: used) rest

/-- Names are made distinct as their texts are. -/
theorem map_text_uniques (used : List String) (bases : List Name) :
    (uniques used bases).map text = uniqueNames used (bases.map text) := by
  induction bases generalizing used with
  | nil => rfl
  | cons base rest ih => exact congrArg (List.cons _) (ih _)

@[simp] theorem length_uniques (used : List String) (bases : List Name) :
    (uniques used bases).length = bases.length := by
  rw [← List.length_map text, map_text_uniques, length_uniqueNames, List.length_map]

/-- Names that were made distinct in turn differ from each other. -/
theorem nodup_uniques (used : List String) (bases : List Name) : (uniques used bases).Nodup := by
  apply List.Nodup.of_map text
  rw [map_text_uniques]
  exact (nodup_uniqueNames used _).1

end Source.Name

namespace JavaName

open Naming

/-- The name of the type for a wire name. -/
def typeOf (wire : String) : Name := ⟨typeName wire, isName_typeName wire⟩

/-- The name of the member for a wire name; a wire name without words takes the fallback. -/
def memberOf (wire : String) (fallback : Name) : Name :=
  ⟨memberName wire fallback.text, isName_memberName wire fallback.isName.1⟩

/-- The name of the getter of a member. -/
def getterOf (member : Name) : Name := ⟨getterName member.text, isName_getterName member.text⟩

/-- The name of the constant for a value on the wire. -/
def constantOf (wire : String) : Name := ⟨constantName wire, isName_constantName wire⟩

@[simp] theorem text_typeOf (wire : String) : (typeOf wire).text = typeName wire := rfl

@[simp] theorem text_memberOf (wire : String) (fallback : Name) :
    (memberOf wire fallback).text = memberName wire fallback.text := rfl

@[simp] theorem text_getterOf (member : Name) :
    (getterOf member).text = getterName member.text := rfl

@[simp] theorem text_constantOf (wire : String) : (constantOf wire).text = constantName wire := rfl

end JavaName

end Stubwright
