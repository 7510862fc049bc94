import Mathlib.Data.List.TakeWhile
import Stubwright.Concern.Resolution

/-!
# The two readings of a path

A path is read twice: its placeholders are matched when an endpoint is checked, and it is cut into
segments when a client is written. Both readings find the same parameters as soon as no brace stands
outside of a placeholder, so an accepted endpoint has a parameter for every segment that asks for
one.

The paths without such a brace are the words of a small grammar, in which a path is made of
placeholders and of characters that are no braces.

## Main definitions

* `PathTemplate` — the paths all of whose braces belong to placeholders
* `PathSegment.paramName?` — the name of the parameter that a segment stands for

## Main results

* `pathTemplate_iff` — a path is matched as the grammar says
* `pathSegments_paramNames` — the segments of a path stand for its placeholders, in order
* `Resolution.pathFault?_eq_none_iff` — the paths that are accepted
* `Resolution.exists_param_of_pathFault?` — an accepted endpoint declares the parameters of its path
-/

namespace Stubwright

/-! ## Placeholders -/

/-- The shape of the name of a placeholder. -/
def isPlaceholderName : List Char → Bool
  | [] => false
  | c :: rest => isPlaceholderStart c && rest.all isPlaceholderPart

/-- A character that may begin a name may stand anywhere in it. -/
theorem isPlaceholderPart_of_isPlaceholderStart {c : Char} (h : isPlaceholderStart c = true) :
    isPlaceholderPart c = true := by
  simp only [isPlaceholderStart, isPlaceholderPart, Char.isAlphanum, Bool.or_eq_true] at h ⊢
  exact .inl (h.imp_left .inl)

theorem isPlaceholderName_iff {name : List Char} : isPlaceholderName name = true ↔
    name.head?.any isPlaceholderStart = true ∧ ∀ c ∈ name, isPlaceholderPart c = true := by
  cases name with
  | nil => simp [isPlaceholderName]
  | cons c rest =>
    simp only [isPlaceholderName, Bool.and_eq_true, List.all_eq_true, List.head?_cons,
      Option.any_some, List.forall_mem_cons]
    exact and_congr_right fun hc =>
      (and_iff_right (isPlaceholderPart_of_isPlaceholderStart hc)).symm

/-- What is matched behind an opening brace is a name in front of a closing one. -/
theorem placeholder?_eq_some_iff {cs name : List Char} : placeholder? cs = some name ↔
    isPlaceholderName name = true ∧ ∃ after, cs = name ++ '\x7d' :: after := by
  rw [isPlaceholderName_iff]
  unfold placeholder?
  dsimp only
  constructor
  · intro h
    split at h
    · rename_i hshape
      cases h
      obtain ⟨hfirst, hclosed⟩ := hshape
      obtain ⟨after, hafter⟩ := List.head?_eq_some_iff.1 hclosed
      refine ⟨⟨hfirst, fun c hc => List.mem_takeWhile_imp hc⟩, after, ?_⟩
      rw [← hafter, List.takeWhile_append_dropWhile]
    · cases h
  · rintro ⟨⟨hfirst, hparts⟩, after, rfl⟩
    -- The name is as long as it can be, since a closing brace is no part of a name.
    have htake : (name ++ '\x7d' :: after).takeWhile isPlaceholderPart = name := by
      rw [List.takeWhile_append_of_pos hparts, List.takeWhile_cons_of_neg (by decide),
        List.append_nil]
    have hdrop : (name ++ '\x7d' :: after).dropWhile isPlaceholderPart = '\x7d' :: after := by
      rw [List.dropWhile_append_of_pos hparts, List.dropWhile_cons_of_neg (by decide)]
    rw [htake, hdrop, if_pos ⟨hfirst, rfl⟩]

/-- The name of a placeholder has no braces. -/
theorem ne_brace_of_mem_isPlaceholderName {name : List Char} (h : isPlaceholderName name = true)
    {c : Char} (hc : c ∈ name) : c ≠ '\x7b' ∧ c ≠ '\x7d' := by
  have hpart := (isPlaceholderName_iff.1 h).2 c hc
  constructor
  all_goals
    rintro rfl
    exact absurd hpart (by decide)

/-! ## Matching -/

/-- The characters of a placeholder that was matched are passed over. -/
theorem scanPlaceholders_length (passed rest : List Char) :
    scanPlaceholders passed.length (passed ++ rest) = scanPlaceholders 0 rest := by
  induction passed with
  | nil => rfl
  | cons c passed ih => exact ih

/-- A placeholder is matched, and matching goes on behind it. -/
theorem scanPlaceholders_placeholder {name : List Char} (h : isPlaceholderName name = true)
    (after : List Char) : scanPlaceholders 0 ('\x7b' :: (name ++ '\x7d' :: after)) =
      (String.ofList name :: (scanPlaceholders 0 after).1, (scanPlaceholders 0 after).2) := by
  have hname : placeholder? (name ++ '\x7d' :: after) = some name :=
    placeholder?_eq_some_iff.2 ⟨h, after, rfl⟩
  have hscan : scanPlaceholders (name.length + 1) (name ++ '\x7d' :: after) =
      scanPlaceholders 0 after := by
    simpa using scanPlaceholders_length (name ++ ['\x7d']) after
  simp [scanPlaceholders, hname, hscan]

/-- A character that no placeholder begins with stands outside of the placeholders. -/
theorem scanPlaceholders_stray {c : Char} {rest : List Char}
    (h : c = '\x7b' → placeholder? rest = none) : scanPlaceholders 0 (c :: rest) =
      ((scanPlaceholders 0 rest).1, c :: (scanPlaceholders 0 rest).2) := by
  by_cases hc : c = '\x7b'
  · simp [scanPlaceholders, hc, h hc]
  · simp [scanPlaceholders, hc]

/-- A path is taken apart as it is matched: into placeholders and characters outside of them. -/
@[elab_as_elim]
theorem placeholder_induction {motive : List Char → Prop} (nil : motive [])
    (placeholder : ∀ name after, isPlaceholderName name = true → motive after →
      motive ('\x7b' :: (name ++ '\x7d' :: after)))
    (stray : ∀ c rest, (c = '\x7b' → placeholder? rest = none) → motive rest → motive (c :: rest))
    (cs : List Char) : motive cs := by
  induction hlength : cs.length using Nat.strongRecOn generalizing cs with
  | _ length ih =>
    subst hlength
    cases cs with
    | nil => exact nil
    | cons c rest =>
      by_cases hc : c = '\x7b' ∧ ∃ name, placeholder? rest = some name
      · obtain ⟨rfl, name, hname⟩ := hc
        obtain ⟨hshape, after, rfl⟩ := placeholder?_eq_some_iff.1 hname
        exact placeholder name after hshape (ih after.length (by simp; omega) after rfl)
      · refine stray c rest (fun heq => ?_) (ih rest.length (by simp) rest rfl)
        exact Option.eq_none_iff_forall_ne_some.2 fun name hname => hc ⟨heq, name, hname⟩

/-! ## Templates -/

/-- A path all of whose braces belong to placeholders, with the names of these from the left. -/
inductive PathTemplate : List Char → List String → Prop where
  | nil : PathTemplate [] []
  | char {c : Char} {rest : List Char} {names : List String} : c ≠ '\x7b' → c ≠ '\x7d' →
      PathTemplate rest names → PathTemplate (c :: rest) names
  | placeholder {name rest : List Char} {names : List String} : isPlaceholderName name = true →
      PathTemplate rest names →
      PathTemplate ('\x7b' :: (name ++ '\x7d' :: rest)) (String.ofList name :: names)

/-- The placeholders of a template are matched, and none of its braces is left outside of them. -/
theorem PathTemplate.scanPlaceholders {cs : List Char} {names : List String}
    (h : PathTemplate cs names) : (scanPlaceholders 0 cs).1 = names ∧
      ∀ c ∈ (scanPlaceholders 0 cs).2, c ≠ '\x7b' ∧ c ≠ '\x7d' := by
  induction h with
  | nil => exact ⟨rfl, nofun⟩
  | char hopen hclose _ ih =>
    rw [scanPlaceholders_stray fun hc => absurd hc hopen]
    exact ⟨ih.1, List.forall_mem_cons.2 ⟨⟨hopen, hclose⟩, ih.2⟩⟩
  | placeholder hname _ ih =>
    rw [scanPlaceholders_placeholder hname]
    exact ⟨congrArg _ ih.1, ih.2⟩

theorem pathTemplate_of_scanPlaceholders (cs : List Char)
    (h : ∀ c ∈ (scanPlaceholders 0 cs).2, c ≠ '\x7b' ∧ c ≠ '\x7d') :
    PathTemplate cs (scanPlaceholders 0 cs).1 := by
  induction cs using placeholder_induction with
  | nil => exact .nil
  | placeholder name after hname ih =>
    rw [scanPlaceholders_placeholder hname] at h ⊢
    exact .placeholder hname (ih h)
  | stray c rest hstray ih =>
    rw [scanPlaceholders_stray hstray] at h ⊢
    obtain ⟨⟨hopen, hclose⟩, hrest⟩ := List.forall_mem_cons.1 h
    exact .char hopen hclose (ih hrest)

/-- A path is a template when no brace of it stands outside of the placeholders that are matched.
The names of the template are those of these placeholders. -/
theorem pathTemplate_iff {path : String} {names : List String} :
    PathTemplate path.toList names ↔
      placeholders path = names ∧ ∀ c ∈ strayText path, c ≠ '\x7b' ∧ c ≠ '\x7d' := by
  refine ⟨PathTemplate.scanPlaceholders, ?_⟩
  rintro ⟨rfl, hstray⟩
  exact pathTemplate_of_scanPlaceholders path.toList hstray

/-- In `/{{id}}` a placeholder is matched, and the braces around it are left. -/
example : placeholders "/\x7b\x7bid\x7d\x7d" = ["id"] ∧
    strayText "/\x7b\x7bid\x7d\x7d" = ['/', '\x7b', '\x7d'] := by
  decide

/-! ## Segments -/

/-- The name of the parameter that a segment stands for. -/
def PathSegment.paramName? : PathSegment → Option String
  | literal _ => none
  | param name => some name

/-- The names of the parameters that segments stand for. -/
def paramNames (segments : List PathSegment) : List String :=
  segments.filterMap PathSegment.paramName?

@[simp] theorem paramNames_append (xs ys : List PathSegment) :
    paramNames (xs ++ ys) = paramNames xs ++ paramNames ys := List.filterMap_append

@[simp] theorem paramNames_ofText (cs : List Char) : paramNames (PathSegment.ofText cs) = [] := by
  cases cs <;> rfl

/-- A segment that was opened is closed at the next closing brace. -/
theorem pathSegmentsFrom_close (literal opened name after : List Char)
    (h : ∀ c ∈ name, c ≠ '\x7d') :
    pathSegmentsFrom literal (some opened) (name ++ '\x7d' :: after) =
      PathSegment.ofText literal
        ++ .param (String.ofList (opened ++ name)) :: pathSegmentsFrom [] none after := by
  induction name generalizing opened with
  | nil => simp [pathSegmentsFrom]
  | cons c rest ih =>
    obtain ⟨hc, hrest⟩ := List.forall_mem_cons.1 h
    rw [List.cons_append, pathSegmentsFrom]
    simp only [hc, if_false]
    rw [ih (opened ++ [c]) hrest, List.append_cons opened c rest]

/-- Where no brace stands outside of a placeholder, the segments stand for the placeholders. -/
theorem paramNames_pathSegmentsFrom (literal cs : List Char)
    (h : ∀ c ∈ (scanPlaceholders 0 cs).2, c ≠ '\x7b') :
    paramNames (pathSegmentsFrom literal none cs) = (scanPlaceholders 0 cs).1 := by
  induction cs using placeholder_induction generalizing literal with
  | nil => simp [pathSegmentsFrom, scanPlaceholders, paramNames_ofText]
  | placeholder name after hname ih =>
    rw [scanPlaceholders_placeholder hname] at h ⊢
    have hclosed : ∀ c ∈ name, c ≠ '\x7d' :=
      fun c hc => (ne_brace_of_mem_isPlaceholderName hname hc).2
    rw [pathSegmentsFrom, if_pos rfl, pathSegmentsFrom_close literal [] name after hclosed,
      paramNames_append, paramNames_ofText, List.nil_append, List.nil_append, ← ih [] h]
    rfl
  | stray c rest hstray ih =>
    rw [scanPlaceholders_stray hstray] at h ⊢
    obtain ⟨hc, hrest⟩ := List.forall_mem_cons.1 h
    rw [pathSegmentsFrom, if_neg hc]
    exact ih _ hrest

/-- The segments of a path stand for its placeholders, from the left. -/
theorem pathSegments_paramNames {path : String} (h : ∀ c ∈ strayText path, c ≠ '\x7b') :
    paramNames (pathSegments path) = placeholders path :=
  paramNames_pathSegmentsFrom [] path.toList h

namespace Resolution

theorem leastMissing?_eq_none_iff {names others : List String} :
    leastMissing? names others = none ↔ ∀ name ∈ names, name ∈ others := by
  rw [leastMissing?, List.head?_eq_none_iff, ← List.length_eq_zero_iff, List.length_mergeSort,
    List.length_eq_zero_iff, List.filter_eq_nil_iff]
  simp

/-- A path is accepted when it begins with a slash, all its braces belong to placeholders, and the
names of these are those of the path parameters. -/
theorem pathFault?_eq_none_iff {endpoint : Endpoint} : pathFault? endpoint = none ↔
    endpoint.path.toList.head? = some '/' ∧ ∃ names, PathTemplate endpoint.path.toList names ∧
      ∀ name, name ∈ names ↔ name ∈ pathParamNames endpoint := by
  have hbraces : ((strayText endpoint.path).any fun c => c = '\x7b' || c = '\x7d') = true ↔
      ¬ ∀ c ∈ strayText endpoint.path, c ≠ '\x7b' ∧ c ≠ '\x7d' := by
    simp [List.any_eq_true, or_iff_not_imp_left]
  -- The names of a template are those of its placeholders, so the two inclusions are the two
  -- searches for a missing name.
  have hnames : (∃ names, PathTemplate endpoint.path.toList names ∧
      ∀ name, name ∈ names ↔ name ∈ pathParamNames endpoint) ↔
      (∀ c ∈ strayText endpoint.path, c ≠ '\x7b' ∧ c ≠ '\x7d') ∧
        leastMissing? (placeholders endpoint.path) (pathParamNames endpoint) = none ∧
        leastMissing? (pathParamNames endpoint) (placeholders endpoint.path) = none := by
    simp only [pathTemplate_iff, leastMissing?_eq_none_iff, and_assoc, exists_eq_left', iff_def,
      forall_and]
  rw [hnames]
  unfold pathFault?
  dsimp only
  split
  · exact iff_of_false nofun fun h => absurd h.1 ‹_›
  · rename_i hslash
    rw [and_iff_right (not_not.1 hslash)]
    split
    · exact iff_of_false nofun fun h => hbraces.1 ‹_› h.1
    · rename_i hstray
      rw [and_iff_right (not_not.1 (mt hbraces.2 hstray))]
      cases leastMissing? (placeholders endpoint.path) (pathParamNames endpoint) <;> simp

/-- Every segment of an accepted path that stands for a parameter has one, which is declared to
stand in the path. -/
theorem exists_param_of_pathFault? {endpoint : Endpoint} (h : pathFault? endpoint = none)
    {name : String} (hname : .param name ∈ pathSegments endpoint.path) :
    ∃ param ∈ endpoint.parameters, param.location = .path ∧ param.name = name := by
  obtain ⟨-, names, htemplate, hnames⟩ := pathFault?_eq_none_iff.1 h
  obtain ⟨rfl, hstray⟩ := pathTemplate_iff.1 htemplate
  have hfound : name ∈ placeholders endpoint.path := by
    rw [← pathSegments_paramNames fun c hc => (hstray c hc).1]
    exact List.mem_filterMap.2 ⟨_, hname, rfl⟩
  obtain ⟨param, hparam, rfl⟩ := List.mem_map.1 ((hnames name).1 hfound)
  obtain ⟨hdeclared, hlocation⟩ := List.mem_filter.1 hparam
  exact ⟨param, hdeclared, of_decide_eq_true hlocation, rfl⟩

end Resolution

end Stubwright
