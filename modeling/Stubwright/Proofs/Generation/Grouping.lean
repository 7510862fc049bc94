import Mathlib.Data.List.Induction
import Stubwright.Generate

/-!
# Groups of routes

Routes are put into groups one at a time. What comes out is a stable partition: the groups stand in
order of first appearance, and each holds its routes in the order in which they came.

## Main results

* `groupByClient_eq` — the groups of a list of routes
* `mem_of_mem_groupByClient` — nothing but the routes is in a group
-/

namespace Stubwright

/-- A value that is appended is kept unless it is there already. -/
theorem eraseDups_append_singleton (names : List String) (name : String) :
    (names ++ [name]).eraseDups =
      if name ∈ names then names.eraseDups else names.eraseDups ++ [name] := by
  rw [List.eraseDups_append]
  by_cases h : name ∈ names
  · simp [h, List.removeAll]
  · simp [h, List.removeAll, List.eraseDups_cons]

theorem nodup_eraseDups (names : List String) : names.eraseDups.Nodup := by
  induction names using List.reverseRecOn with
  | nil => exact List.nodup_nil
  | append_singleton names name ih =>
    rw [eraseDups_append_singleton]
    split
    · exact ih
    · rename_i h
      refine List.nodup_append.2 ⟨ih, by simp, fun found hfound last hlast => ?_⟩
      obtain rfl := List.mem_singleton.1 hlast
      rintro rfl
      exact h (List.mem_eraseDups.1 hfound)

section

variable (route : Route) (members : String → List Route)

/-- A route of a group that is there goes to the end of the group. -/
theorem addToGroup_of_mem {groups : List String} (hnodup : groups.Nodup)
    (h : route.client ∈ groups) :
    addToGroup route (groups.map fun group => (group, members group)) =
      groups.map fun group =>
        (group, if group = route.client then members group ++ [route] else members group) := by
  induction groups with
  | nil => cases h
  | cons first rest ih =>
    obtain ⟨hfirst, hrest⟩ := List.nodup_cons.1 hnodup
    by_cases heq : first = route.client
    · have hothers : ∀ group ∈ rest, group ≠ route.client := by
        rintro group hgroup rfl
        exact hfirst (heq ▸ hgroup)
      simp only [List.map_cons, addToGroup, heq, if_true]
      exact congrArg _ (List.map_congr_left fun group hgroup => by simp [hothers group hgroup])
    · have hmem : route.client ∈ rest := by
        rcases List.mem_cons.1 h with h | h
        · exact absurd h.symm heq
        · exact h
      simp only [List.map_cons, addToGroup, heq, if_false]
      exact congrArg _ (ih hrest hmem)

/-- A route of a new group opens the group behind all others. -/
theorem addToGroup_of_not_mem {groups : List String} (h : route.client ∉ groups) :
    addToGroup route (groups.map fun group => (group, members group)) =
      (groups.map fun group => (group, members group)) ++ [(route.client, [route])] := by
  induction groups with
  | nil => rfl
  | cons first rest ih =>
    obtain ⟨hfirst, hrest⟩ := not_or.1 (mt List.mem_cons.2 h)
    simp only [List.map_cons, addToGroup, Ne.symm hfirst, if_false, List.cons_append]
    exact congrArg _ (ih hrest)

end

/-- The groups of a list of routes, in order of first appearance, each with its routes in order. -/
theorem groupByClient_eq (routes : List Route) :
    groupByClient routes = (routes.map (·.client)).eraseDups.map fun group =>
      (group, routes.filter (·.client = group)) := by
  induction routes using List.reverseRecOn with
  | nil => rfl
  -- Routes arrive at the end, so the induction takes the last one off.
  | append_singleton routes route ih =>
    have hstep : groupByClient (routes ++ [route]) = addToGroup route (groupByClient routes) := by
      simp [groupByClient]
    rw [hstep, ih, List.map_append, List.map_singleton, eraseDups_append_singleton]
    have hnodup := nodup_eraseDups (routes.map (·.client))
    split
    · rename_i h
      rw [addToGroup_of_mem route _ hnodup (List.mem_eraseDups.2 h)]
      refine List.map_congr_left fun group _ => ?_
      by_cases heq : group = route.client
      · simp [heq]
      · simp [heq, Ne.symm heq]
    · rename_i h
      rw [addToGroup_of_not_mem route _ (mt List.mem_eraseDups.1 h), List.map_append,
        List.map_singleton]
      have hnone : routes.filter (·.client = route.client) = [] := by
        rw [List.filter_eq_nil_iff]
        intro found hfound
        have hne : found.client ≠ route.client :=
          fun heq => h (List.mem_map.2 ⟨found, hfound, heq⟩)
        simpa using hne
      have hothers : ∀ group ∈ (routes.map (·.client)).eraseDups, route.client ≠ group := by
        rintro _ hgroup rfl
        exact h (List.mem_eraseDups.1 hgroup)
      congr 1
      · refine List.map_congr_left fun group hgroup => ?_
        simp [hothers group hgroup]
      · simp [hnone]

/-- A group holds only routes that were grouped. -/
theorem mem_of_mem_groupByClient {routes : List Route} {group : String × List Route}
    (hgroup : group ∈ groupByClient routes) {found : Route} (hfound : found ∈ group.2) :
    found ∈ routes := by
  rw [groupByClient_eq] at hgroup
  obtain ⟨name, -, rfl⟩ := List.mem_map.1 hgroup
  exact (List.mem_filter.1 hfound).1

end Stubwright
