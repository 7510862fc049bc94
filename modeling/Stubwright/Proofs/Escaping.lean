import Stubwright.Proofs.NameReading

/-!
# Names that are read back

Whatever the wire name is, the names that are made of it are read as they stand. A member that
would be a reserved word is escaped, and an identifier could be chosen on purpose that looks like
it. A wire name never makes one: no text in camel case ends in the marker, so unescaping a member
gives what it was before, and what looks escaped has been escaped.

## Main definitions

* `memberStem` — what a member is called before it is escaped
* `EndsPlain` — a text that ends in another character than the marker
* `Source.IsReadAsName` — a text that is read as a name as it stands

## Main results

* `unescape_escape` — escaping is undone where the marker did not end the text before
* `unescape_memberName` — a member unescapes to what it was made of
* `names_read_back` — names for wire names are read, and members unescape
-/

namespace Stubwright

open Source

/-- The text is read as a name, and the name is this text. -/
def Source.IsReadAsName (text : String) : Prop :=
  ∃ name : Name, Grammar.name.parse text = .ok name ∧ name.text = text

theorem Source.isReadAsName_of_isName {text : String} (h : IsName text) : IsReadAsName text :=
  ⟨⟨text, h⟩, Grammar.parse_name ⟨text, h⟩, rfl⟩

namespace Naming

/-! ## What is escaped -/

/-- What a member is called before it is escaped: the wire name in camel case, or the fallback where
it has no words. A digit in front gets an underscore before it. -/
def memberStem (raw fallback : String) : String :=
  let camel := camelCase raw
  let shaped := if camel.isEmpty then fallback else camel
  if beginsName shaped then shaped else "_" ++ shaped

theorem memberName_eq_escape (raw fallback : String) :
    memberName raw fallback = escape (memberStem raw fallback) := by
  unfold memberName
  rfl

/-- A text that ends, and not with the marker. -/
def EndsPlain (text : String) : Prop := ∃ c ∈ text.toList.getLast?, c ≠ escapeMarker

theorem unescape_of_endsPlain {text : String} (h : EndsPlain text) : unescape text = text := by
  obtain ⟨c, hlast, hc⟩ := h
  unfold unescape
  rw [Option.mem_def.1 hlast, if_neg fun hmarker => hc (Option.some.inj hmarker)]

/-- Escaping is undone where the text does not end with the marker already. -/
theorem unescape_escape {text : String} (h : EndsPlain text) : unescape (escape text) = text := by
  cases hreserved : isReserved text with
  | true => exact unescape_escape_of_isReserved hreserved
  | false => rw [escape_of_not_isReserved hreserved, unescape_of_endsPlain h]

/-! ## Members -/

/-- A text ends as it did with something in front of it. -/
theorem EndsPlain.lead {lead shaped : String} (h : EndsPlain shaped) :
    EndsPlain (if beginsName shaped then shaped else lead ++ shaped) := by
  split
  · exact h
  · obtain ⟨c, hlast, hc⟩ := h
    refine ⟨c, ?_, hc⟩
    rw [String.toList_append, List.getLast?_append, Option.mem_def.1 hlast]
    rfl

/-- A text in camel case that has words ends with a letter or digit. -/
theorem endsPlain_camelCase {raw : String} (h : (camelCase raw).isEmpty = false) :
    EndsPlain (camelCase raw) := by
  have hne : (camelCase raw).toList ≠ [] := by
    intro hnil
    rw [String.toList_eq_nil_iff] at hnil
    simp [hnil] at h
  refine ⟨_, List.getLast?_eq_some_getLast hne, fun hmarker => ?_⟩
  have hlast := isAlphanum_of_mem_camelCase _ (List.getLast_mem hne)
  rw [hmarker] at hlast
  exact absurd hlast (by decide)

variable {fallback : String} (h : EndsPlain fallback)

include h

theorem endsPlain_memberStem (raw : String) : EndsPlain (memberStem raw fallback) := by
  unfold memberStem
  apply EndsPlain.lead
  cases hempty : (camelCase raw).isEmpty with
  | true => exact h
  | false => exact endsPlain_camelCase hempty

theorem unescape_memberName (raw : String) :
    unescape (memberName raw fallback) = memberStem raw fallback := by
  rw [memberName_eq_escape, unescape_escape (endsPlain_memberStem h raw)]

/-- A member looks like an escaped word only where this word was escaped. -/
theorem memberName_eq_push_iff (raw : String) {word : String} (hword : isReserved word) :
    memberName raw fallback = word.push escapeMarker ↔ memberStem raw fallback = word := by
  have hescape : escape word = word.push escapeMarker := by simp [escape, hword]
  rw [← hescape]
  -- Unescaping takes the member to what it was made of and the escaped word to the word.
  constructor
  · intro hmember
    rw [← unescape_memberName h, hmember, unescape_escape_of_isReserved hword]
  · intro hstem
    rw [memberName_eq_escape, hstem]

end Naming

open Naming

/-- The names of types, constants, members and getters are read as they stand, whatever the wire
name is, and also where a member takes any identifier as its fallback. A member with one of the
fallbacks of generated code unescapes to what it was made of; it looks like an escaped word only
where this word was escaped. -/
theorem names_read_back (raw : String) :
    IsReadAsName (typeName raw) ∧ IsReadAsName (constantName raw) ∧
      (∀ fallback : String, isIdentifier fallback.toList → IsReadAsName (memberName raw fallback)) ∧
      (∀ member : Name, IsReadAsName (getterName member.text)) ∧
      ∀ fallback ∈ ["field", "operation", "param", "type"],
        unescape (memberName raw fallback) = memberStem raw fallback ∧
          ∀ word, isReserved word →
            (memberName raw fallback = word.push escapeMarker ↔ memberStem raw fallback = word) := by
  refine ⟨isReadAsName_of_isName (isName_typeName raw),
    isReadAsName_of_isName (isName_constantName raw),
    fun fallback h => isReadAsName_of_isName (isName_memberName raw h),
    fun member => isReadAsName_of_isName (isName_getterName member.text), ?_⟩
  have hfallbacks : ∀ fallback ∈ ["field", "operation", "param", "type"], EndsPlain fallback := by
    simp [EndsPlain, escapeMarker]
  intro fallback hfallback
  have hplain := hfallbacks fallback hfallback
  exact ⟨unescape_memberName hplain raw, fun word hword => memberName_eq_push_iff hplain raw hword⟩

/-- A reserved word, a wire name without words beside a reserved fallback, and a getter that would
be one of every object. -/
theorem names_read_back_class :
    IsReadAsName (typeName "class") ∧ IsReadAsName (constantName "class") ∧
      (isIdentifier "new".toList ∧ IsReadAsName (memberName "?" "new")) ∧
      IsReadAsName (getterName "class_") ∧
      ("param" ∈ ["field", "operation", "param", "type"] ∧
        unescape (memberName "Class" "param") = memberStem "Class" "param") ∧
      isReserved "class" ∧ memberStem "Class" "param" = "class" ∧
        memberName "Class" "param" = "class_" := by
  have hstem : memberStem "Class" "param" = "class" := by decide +kernel
  obtain ⟨htype, hconstant, -, hgetter, hmember⟩ := names_read_back "class"
  have hparam := (names_read_back "Class").2.2.2.2 "param" (by decide)
  have hclass := (hparam.2 "class" (by decide)).2 hstem
  exact ⟨htype, hconstant, ⟨by decide, (names_read_back "?").2.2.1 "new" (by decide)⟩,
    hgetter ⟨"class_", by decide⟩, ⟨by decide, hparam.1⟩, by decide, hstem, hclass⟩

end Stubwright
