import FeatureProbes.Proofs.WebIdl.Contributions
import Mathlib.Data.List.Induction

/-!
# Global members

An inclusion that makes global members either lists all members of the mixin or notes one more
target for those that are listed.  After any number of inclusions the list is therefore known from
two things: the one mixin whose members can become global, with its partial definitions, and the
names of the global objects that include it, in the order of their first inclusion.
-/

namespace FeatureProbes
namespace WebIdl

/-- The name of the global object for which an inclusion makes global members, if it does. -/
def routedTarget?
    (bases : List Definition)
    (inclusion : Definition) :
    Option String :=
  (endsOf? bases inclusion).bind fun (target, mixin) =>
    if isRouted mixin target then some target.name else none

/-- The names of the global objects for which inclusions make global members, each once. -/
def routedTargets
    (bases inclusions : List Definition) :
    List String :=
  (inclusions.filterMap (routedTarget? bases)).eraseDups

/-- The members of a mixin as global members of some targets, if there is a target. -/
def globalsFor
    (mixin : Definition)
    (targets : List String) :
    List GlobalMember :=
  if targets.isEmpty then []
  else mixin.exposedMembers.map fun member => ⟨member, mixin.name, targets⟩

section Names

variable {names : List String} {name : String}

theorem eraseDups_append_singleton :
    (names ++ [name]).eraseDups =
      if name ∈ names then names.eraseDups else names.eraseDups ++ [name] := by
  rw [List.eraseDups_append]
  by_cases h : name ∈ names
  · simp [List.removeAll, h]
  · simp [List.removeAll, h, List.eraseDups_cons]

theorem nodup_eraseDups
    (names : List String) :
    names.eraseDups.Nodup := by
  induction names using List.reverseRecOn with
  | nil =>
      simp
  | append_singleton names name ih =>
      rw [eraseDups_append_singleton]
      split
      · exact ih
      · rename_i hnew
        rw [List.nodup_append]
        refine ⟨ih, List.nodup_singleton name, ?_⟩
        intro other hother last hlast heq
        rw [List.mem_singleton.1 hlast] at heq
        exact hnew (List.mem_eraseDups.1 (heq ▸ hother))

theorem eraseDups_eq_nil_iff :
    names.eraseDups = [] ↔ names = [] := by
  constructor
  · intro h
    refine List.eq_nil_iff_forall_not_mem.2 ?_
    intro name hname
    have hmem := List.mem_eraseDups.2 hname
    rw [h] at hmem
    exact List.not_mem_nil hmem
  · rintro rfl
    rfl

end Names

/-- Noting a target for the members that are listed is listing them for one more target. -/
theorem addGlobals_globalsFor
    {mixin : Definition} {names : List String}
    (name : String) :
    addGlobals (globalsFor mixin names.eraseDups) mixin name =
      globalsFor mixin (names ++ [name]).eraseDups := by
  have hnonempty : (names ++ [name]).eraseDups ≠ [] := by
    simp [eraseDups_eq_nil_iff]
  by_cases hfirst : names = []
  · subst hfirst
    simp [addGlobals, globalsFor, List.eraseDups_cons]
  · have htargets : names.eraseDups ≠ [] := by
      rwa [ne_eq, eraseDups_eq_nil_iff]
    rw [addGlobals]
    split
    · rename_i hempty
      have hnone : mixin.exposedMembers = [] := by
        simpa [globalsFor, htargets] using hempty
      simp [globalsFor, hnone]
    · simp only [globalsFor, List.isEmpty_iff, htargets, hnonempty, if_false, List.map_map]
      refine List.map_congr_left ?_
      intro member _
      rw [eraseDups_append_singleton]
      by_cases hmem : name ∈ names
      · simp [hmem]
      · simp [hmem]

section Bases

variable {bases inclusions : List Definition} {parts : List Delivery}

/-- A routed inclusion brings the one mixin whose members can become global. -/
theorem definitionOf?_globalMixin
    {inclusion target mixin : Definition}
    (hnodup : (bases.map Definition.name).Nodup)
    (hends : endsOf? bases inclusion = some (target, mixin))
    (hrouted : isRouted mixin target) :
    definitionOf? bases globalMixin .mixin = some mixin := by
  obtain ⟨-, hmem, -, hkind⟩ := (endsOf?_eq_some_iff hnodup).1 hends
  have hname : mixin.name = globalMixin := by
    simp only [isRouted, Bool.and_eq_true, beq_iff_eq] at hrouted
    exact hrouted.1
  exact (definitionOf?_eq_some_iff hnodup).2 ⟨hmem, hname, hkind⟩

theorem routedTargets_append_singleton
    {inclusion : Definition} :
    routedTargets bases (inclusions ++ [inclusion]) =
      (inclusions.filterMap (routedTarget? bases) ++
        (routedTarget? bases inclusion).toList).eraseDups := by
  rw [routedTargets, List.filterMap_append]
  cases h : routedTarget? bases inclusion with
  | none =>
      simp [h]
  | some name =>
      simp [h]

/-- After some inclusions the global members are those of the one mixin, for all targets so far. -/
theorem foldl_globalsAfter
    (hnodup : (bases.map Definition.name).Nodup) :
    inclusions.foldl (globalsAfter bases parts) [] =
      (definitionOf? bases globalMixin .mixin).elim []
        fun mixin => globalsFor (received parts mixin) (routedTargets bases inclusions) := by
  induction inclusions using List.reverseRecOn with
  | nil =>
      cases definitionOf? bases globalMixin .mixin with
      | none =>
          rfl
      | some mixin =>
          simp [globalsFor, routedTargets]
  | append_singleton done inclusion ih =>
      have hstays : routedTarget? bases inclusion = none →
          routedTargets bases (done ++ [inclusion]) = routedTargets bases done := by
        intro hnone
        rw [routedTargets_append_singleton, hnone, Option.toList_none, List.append_nil]
        rfl
      rw [List.foldl_append, List.foldl_cons, List.foldl_nil, ih, globalsAfter]
      cases hends : endsOf? bases inclusion with
      | none =>
          rw [hstays (by simp [routedTarget?, hends])]
      | some ends =>
          obtain ⟨target, mixin⟩ := ends
          by_cases hrouted : isRouted mixin target
          · have htarget : routedTarget? bases inclusion = some target.name := by
              simp [routedTarget?, hends, hrouted]
            rw [definitionOf?_globalMixin hnodup hends hrouted, routedTargets_append_singleton,
              htarget]
            simp only [hrouted, if_true, Option.elim_some, Option.toList_some]
            exact addGlobals_globalsFor target.name
          · rw [hstays (by simp [routedTarget?, hends, hrouted])]
            simp [hrouted]

end Bases

/-- The global members of a merge are those of the one mixin, with the names of all global objects
that include it. -/
theorem mergedOf_globals
    {all : List Definition}
    (h : Linked all) :
    (mergedOf all).globals =
      (definitionOf? (basesOf all) globalMixin .mixin).elim []
        fun mixin =>
          globalsFor (withParts all mixin) (routedTargets (basesOf all) (inclusionsOf all)) := by
  rw [mergedOf, foldl_globalsAfter h.distinct]
  cases hmixin : definitionOf? (basesOf all) globalMixin .mixin with
  | none =>
      rfl
  | some mixin =>
      have hmem := ((definitionOf?_eq_some_iff h.distinct).1 hmixin).1
      rw [Option.elim_some, Option.elim_some, received_partDeliveries h hmem]

end WebIdl
end FeatureProbes
