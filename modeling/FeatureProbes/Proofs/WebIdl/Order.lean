import FeatureProbes.Proofs.WebIdl.Globals
import FeatureProbes.Proofs.WebIdl.Merged
import Mathlib.Data.List.Perm.Basic

/-!
# The order of definitions

It does not matter in which order definitions are listed and how they are spread over fragments.
Definitions in another order are mergeable just if they were before, and then they merge to the
same definitions up to the order of these and of their members, and to the same global members up
to the order of these and of their targets.

Two lists agree in this sense if one of them can be reordered so that it agrees with the other
entry by entry.
-/

namespace FeatureProbes
namespace WebIdl

/-- The entries of two lists agree in pairs, in whatever order they stand. -/
def PairsOff
    {α β : Type}
    (agree : α → β → Prop)
    (first : List α)
    (second : List β) : Prop :=
  ∃ reordered, first.Perm reordered ∧ List.Forall₂ agree reordered second

section PairsOff

variable {α β γ δ : Type} {agree : α → β → Prop}

theorem PairsOff.cons
    {a : α} {b : β} {first : List α} {second : List β}
    (hhead : agree a b)
    (h : PairsOff agree first second) :
    PairsOff agree (a :: first) (b :: second) := by
  obtain ⟨reordered, hperm, hagree⟩ := h
  exact ⟨a :: reordered, hperm.cons a, .cons hhead hagree⟩

theorem PairsOff.append
    {first first' : List α} {second second' : List β}
    (h : PairsOff agree first second)
    (h' : PairsOff agree first' second') :
    PairsOff agree (first ++ first') (second ++ second') := by
  obtain ⟨reordered, hperm, hagree⟩ := h
  obtain ⟨reordered', hperm', hagree'⟩ := h'
  exact ⟨reordered ++ reordered', hperm.append hperm', List.rel_append hagree hagree'⟩

/-- Images of the same entries in another order pair off if those of each entry agree. -/
theorem pairsOff_map
    {f : γ → α} {g : γ → β} {items items' : List γ}
    (hperm : items.Perm items')
    (hagree : ∀ item ∈ items, agree (f item) (g item)) :
    PairsOff agree (items.map f) (items'.map g) := by
  refine ⟨items'.map f, hperm.map f, ?_⟩
  rw [List.forall₂_map_left_iff, List.forall₂_map_right_iff, List.forall₂_same]
  intro item hitem
  exact hagree item (hperm.mem_iff.2 hitem)

/-- Lists of rows that pair off up to the order within rows have the same entries. -/
theorem PairsOff.flatten
    {first second : List (List α)}
    (h : PairsOff List.Perm first second) :
    first.flatten.Perm second.flatten := by
  obtain ⟨reordered, hperm, hagree⟩ := h
  refine hperm.flatten.trans ?_
  clear hperm
  induction hagree with
  | nil =>
      exact List.Perm.refl _
  | cons hrow _ ih =>
      rw [List.flatten_cons, List.flatten_cons]
      exact hrow.append ih

end PairsOff

/-! ## What agrees up to order -/

/-- Two definitions that differ in the order of their members only. -/
structure Definition.SameUpToOrder (first second : Definition) : Prop where
  members : first.members.Perm second.members
  rest : { first with members := second.members } = second

/-- Two global members that differ in the order of their targets only. -/
structure GlobalMember.SameUpToOrder (first second : GlobalMember) : Prop where
  targets : first.targets.Perm second.targets
  rest : { first with targets := second.targets } = second

theorem Definition.SameUpToOrder.exposedMembers
    {first second : Definition}
    (h : first.SameUpToOrder second) :
    first.exposedMembers.Perm second.exposedMembers := by
  have hstamp : first.stamp = second.stamp := by
    rw [← h.rest]
    rfl
  rw [exposedMembers_eq_map_stamp, exposedMembers_eq_map_stamp, hstamp]
  exact h.members.map second.stamp

theorem sharesName_congr
    {first first' second second' : List Member}
    (hfirst : first.Perm first')
    (hsecond : second.Perm second') :
    SharesName first second ↔ SharesName first' second' := by
  simp only [SharesName, hfirst.mem_iff, hsecond.mem_iff]

theorem exists_mem_of_forall₂
    {α β : Type} {agree : α → β → Prop} {first : List α} {second : List β} {b : β}
    (h : List.Forall₂ agree first second)
    (hb : b ∈ second) :
    ∃ a ∈ first, agree a b := by
  induction h with
  | nil =>
      exact absurd hb List.not_mem_nil
  | cons hhead _ ih =>
      rcases List.mem_cons.1 hb with rfl | hb
      · exact ⟨_, List.mem_cons_self, hhead⟩
      · obtain ⟨a, ha, hagree⟩ := ih hb
        exact ⟨a, List.mem_cons_of_mem _ ha, hagree⟩

/-- Whether rows share a name does not depend on the order of the rows and of their members. -/
theorem PairsOff.pairwise_not_sharesName
    {first second : List (List Member)}
    (h : PairsOff List.Perm first second)
    (hrows : first.Pairwise fun row other => ¬SharesName row other) :
    second.Pairwise fun row other => ¬SharesName row other := by
  obtain ⟨reordered, hperm, hagree⟩ := h
  have hreordered := (hperm.pairwise_iff fun hne hshares => hne (sharesName_comm.1 hshares)).1 hrows
  clear hperm hrows
  induction hagree with
  | nil =>
      exact List.Pairwise.nil
  | @cons row row' rows rows' hrow hagree ih =>
      obtain ⟨hhead, htail⟩ := List.pairwise_cons.1 hreordered
      refine List.pairwise_cons.2 ⟨?_, ih htail⟩
      intro other' hother' hshares
      obtain ⟨other, hother, hsame⟩ : ∃ other ∈ rows, other.Perm other' :=
        exists_mem_of_forall₂ hagree hother'
      exact hhead other hother ((sharesName_congr hrow hsame).2 hshares)

/-! ## Reordered definitions -/

section Reordered

variable {all all' : List Definition} {base : Definition}

theorem definitionOf?_eq_of_perm
    {bases bases' : List Definition} {name : String} {kind : DefinitionKind}
    (hperm : bases.Perm bases')
    (hnodup : (bases.map Definition.name).Nodup) :
    definitionOf? bases name kind = definitionOf? bases' name kind := by
  have hnodup' : (bases'.map Definition.name).Nodup := (hperm.map _).nodup_iff.1 hnodup
  refine Option.ext fun definition => ?_
  rw [definitionOf?_eq_some_iff hnodup, definitionOf?_eq_some_iff hnodup', hperm.mem_iff]

theorem basesOf_perm
    (hperm : all.Perm all') :
    (basesOf all).Perm (basesOf all') :=
  hperm.filter _

theorem Linked.of_perm
    (h : Linked all)
    (hperm : all.Perm all') :
    Linked all' := by
  have hbases := basesOf_perm hperm
  refine ⟨(hbases.map _).nodup_iff.1 h.distinct, ?_, ?_⟩
  · intro part hpart hpartial
    obtain ⟨base, hbase, hfits⟩ := h.based part (hperm.mem_iff.2 hpart) hpartial
    exact ⟨base, hbases.mem_iff.1 hbase, hfits⟩
  · intro inclusion hinclusion hkind
    obtain ⟨⟨target, htarget, hends⟩, mixin, hmixin, hnamed⟩ :=
      h.joined inclusion (hperm.mem_iff.2 hinclusion) hkind
    exact ⟨⟨target, hbases.mem_iff.1 htarget, hends⟩, mixin, hbases.mem_iff.1 hmixin, hnamed⟩

theorem withParts_sameUpToOrder
    (hperm : all.Perm all')
    (base : Definition) :
    (withParts all base).SameUpToOrder (withParts all' base) := by
  have hparts : (partsOf all base).Perm (partsOf all' base) := hperm.filter _
  have hrows := hparts.flatMap_right fun part => part.members.map part.stamp
  exact ⟨hrows.append_left base.members, rfl⟩

theorem mixinsOf_perm
    (h : Linked all)
    (hperm : all.Perm all')
    (base : Definition) :
    (mixinsOf all base).Perm (mixinsOf all' base) := by
  have hsame : mixinFor? (basesOf all) base = mixinFor? (basesOf all') base := by
    funext inclusion
    rw [mixinFor?, mixinFor?, definitionOf?_eq_of_perm (basesOf_perm hperm) h.distinct]
  have hinclusions : (inclusionsOf all).Perm (inclusionsOf all') := hperm.filter _
  rw [mixinsOf, mixinsOf, hsame]
  exact hinclusions.filterMap _

/-- A definition has the same contributions, in some order, and each has the same members. -/
theorem contributions_pairsOff
    (h : Linked all)
    (hperm : all.Perm all')
    (base : Definition) :
    PairsOff List.Perm (contributions all base) (contributions all' base) := by
  have hparts : (partsOf all base).Perm (partsOf all' base) := hperm.filter _
  refine PairsOff.cons (List.Perm.refl base.members) (PairsOff.append ?_ ?_)
  · exact pairsOff_map hparts fun part _ => List.Perm.refl _
  · refine pairsOff_map (mixinsOf_perm h hperm base) ?_
    intro mixin _
    exact (withParts_sameUpToOrder hperm mixin).members.map mixin.stamp

theorem Mergeable.of_perm
    (h : Mergeable all)
    (hperm : all.Perm all') :
    Mergeable all' := by
  refine ⟨h.toLinked.of_perm hperm, ?_⟩
  intro base hbase
  have hrows := h.separate base ((basesOf_perm hperm).mem_iff.2 hbase)
  exact (contributions_pairsOff h.toLinked hperm base).pairwise_not_sharesName hrows

theorem flattened_sameUpToOrder
    (h : Linked all)
    (hperm : all.Perm all')
    (base : Definition) :
    (flattened all base).SameUpToOrder (flattened all' base) :=
  ⟨(contributions_pairsOff h hperm base).flatten, rfl⟩

theorem mergedOf_definitions_pairsOff
    (h : Linked all)
    (hperm : all.Perm all') :
    PairsOff Definition.SameUpToOrder (mergedOf all).definitions (mergedOf all').definitions :=
  pairsOff_map ((basesOf_perm hperm).filter _) fun base _ => flattened_sameUpToOrder h hperm base

/-- The same global objects include the mixin, whatever the order. -/
theorem routedTargets_perm
    (h : Linked all)
    (hperm : all.Perm all') :
    (routedTargets (basesOf all) (inclusionsOf all)).Perm
      (routedTargets (basesOf all') (inclusionsOf all')) := by
  have hsame : routedTarget? (basesOf all) = routedTarget? (basesOf all') := by
    have hbases := basesOf_perm hperm
    funext inclusion
    simp only [routedTarget?, endsOf?, definitionOf?_eq_of_perm hbases h.distinct]
  have hinclusions : (inclusionsOf all).Perm (inclusionsOf all') := hperm.filter _
  have hnames := hinclusions.filterMap (routedTarget? (basesOf all'))
  rw [routedTargets, routedTargets, hsame,
    List.perm_ext_iff_of_nodup (nodup_eraseDups _) (nodup_eraseDups _)]
  intro name
  rw [List.mem_eraseDups, List.mem_eraseDups, hnames.mem_iff]

theorem globalsFor_pairsOff
    {mixin mixin' : Definition} {targets targets' : List String}
    (hmixin : mixin.SameUpToOrder mixin')
    (htargets : targets.Perm targets') :
    PairsOff GlobalMember.SameUpToOrder (globalsFor mixin targets)
      (globalsFor mixin' targets') := by
  have hname : mixin.name = mixin'.name := by
    rw [← hmixin.rest]
  rw [globalsFor, globalsFor, hname]
  cases targets with
  | nil =>
      rw [htargets.nil_eq.symm]
      exact ⟨[], List.Perm.refl _, .nil⟩
  | cons name names =>
      cases targets' with
      | nil =>
          exact absurd htargets.eq_nil (List.cons_ne_nil _ _)
      | cons name' names' =>
          exact pairsOff_map hmixin.exposedMembers fun member _ => ⟨htargets, rfl⟩

theorem mergedOf_globals_pairsOff
    (h : Linked all)
    (hperm : all.Perm all') :
    PairsOff GlobalMember.SameUpToOrder (mergedOf all).globals (mergedOf all').globals := by
  have h' := h.of_perm hperm
  rw [mergedOf_globals h, mergedOf_globals h',
    definitionOf?_eq_of_perm (basesOf_perm hperm) h.distinct]
  cases definitionOf? (basesOf all') globalMixin .mixin with
  | none =>
      exact ⟨[], List.Perm.refl _, .nil⟩
  | some mixin =>
      exact globalsFor_pairsOff (withParts_sameUpToOrder hperm mixin) (routedTargets_perm h hperm)

end Reordered

/-- Fragments with the same definitions, in whatever fragments and whatever order, merge or fail
together.  If they merge, then to the same definitions, up to the order of the definitions and of
their members, and to the same global members, up to the order of these and of their targets. -/
theorem merge_of_perm
    {spec custom spec' custom' : Fragments}
    (hperm : (definitionsOf spec custom).Perm (definitionsOf spec' custom')) :
    ((∃ merged, merge spec custom = .ok merged) ↔ ∃ merged, merge spec' custom' = .ok merged) ∧
      ∀ merged merged', merge spec custom = .ok merged → merge spec' custom' = .ok merged' →
        PairsOff Definition.SameUpToOrder merged.definitions merged'.definitions ∧
          PairsOff GlobalMember.SameUpToOrder merged.globals merged'.globals := by
  have hok : ∀ spec custom : Fragments, (∃ merged, merge spec custom = .ok merged) ↔
      Mergeable (definitionsOf spec custom) := by
    intro spec custom
    constructor
    · rintro ⟨merged, h⟩
      exact (mergeDefinitions_eq_ok_iff.1 h).1
    · intro h
      exact ⟨_, mergeDefinitions_eq_ok_iff.2 ⟨h, rfl⟩⟩
  constructor
  · rw [hok, hok]
    exact ⟨fun h => h.of_perm hperm, fun h => h.of_perm hperm.symm⟩
  · intro merged merged' h h'
    obtain ⟨hmergeable, rfl⟩ : Mergeable (definitionsOf spec custom) ∧ _ :=
      mergeDefinitions_eq_ok_iff.1 h
    obtain ⟨-, rfl⟩ : Mergeable (definitionsOf spec' custom') ∧ _ :=
      mergeDefinitions_eq_ok_iff.1 h'
    exact ⟨mergedOf_definitions_pairsOff hmergeable.toLinked hperm,
      mergedOf_globals_pairsOff hmergeable.toLinked hperm⟩

/-- Definitions of every sort, of which some make a mixin global. -/
def workshop : List Definition :=
  [.ofKind .interface "Window",
    { Definition.ofKind .interface "W" with attributes := [⟨"Global", none, []⟩] },
    { Definition.ofKind .interface "A" with members := [.ofKind .attr "x"] },
    { Definition.ofKind .mixin globalMixin with
      members := [.ofKind .operation "f"]
      attributes := [⟨"Exposed", some .wildcard, []⟩] },
    { Definition.ofKind .mixin globalMixin with
      isPartial := true
      members := [.ofKind .operation "g"] },
    { Definition.ofKind .interface "A" with isPartial := true, members := [.ofKind .attr "y"] },
    { Definition.ofKind .includes "Window" with included := some globalMixin },
    { Definition.ofKind .includes "W" with included := some globalMixin },
    { Definition.ofKind .includes "A" with included := some globalMixin }]

/-- The workshop in three fragments, and the other way round in one. -/
theorem merge_workshop :
    let spec : Fragments :=
      SortedMap.ofList [("first", workshop.take 3), ("second", (workshop.drop 3).take 3)]
    let custom : Fragments := SortedMap.ofList [("third", workshop.drop 6)]
    let reversed : Fragments := SortedMap.ofList [("all", workshop.reverse)]
    (definitionsOf spec custom).Perm (definitionsOf reversed .empty) ∧ ∃ merged merged',
      merge spec custom = .ok merged ∧ merge reversed .empty = .ok merged' ∧
      merged.globals.map GlobalMember.targets = [["Window", "W"], ["Window", "W"]] ∧
      merged'.globals.map GlobalMember.targets = [["W", "Window"], ["W", "Window"]] ∧
      PairsOff Definition.SameUpToOrder merged.definitions merged'.definitions ∧
      PairsOff GlobalMember.SameUpToOrder merged.globals merged'.globals := by
  intro spec custom reversed
  have h : merge spec custom = .ok (mergedOf (definitionsOf spec custom)) := rfl
  have h' : merge reversed .empty = .ok (mergedOf (definitionsOf reversed .empty)) := rfl
  have hperm : (definitionsOf spec custom).Perm (definitionsOf reversed .empty) :=
    workshop.reverse_perm.symm
  exact ⟨hperm, _, _, h, h', by decide, by decide, (merge_of_perm hperm).2 _ _ h h'⟩

end WebIdl
end FeatureProbes
