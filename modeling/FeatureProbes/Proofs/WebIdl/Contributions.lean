import FeatureProbes.Proofs.WebIdl.Passes

/-!
# Contributions to merged definitions

The members of a merged definition come from its base, from its partial definitions, and, if it is
an interface, from the mixins that it includes.  These contributions are found in the list of all
definitions, without a merge.

A merge succeeds just if names of bases differ, everything that adds to a definition finds it, and
no two contributions to a definition have a name in common.  Then its definitions are the bases
with their contributions one behind the other.
-/

namespace FeatureProbes
namespace WebIdl

/-- A member that moves out of a container takes along where the container is exposed, unless it has
a restriction of its own. -/
def Definition.stamp
    (container : Definition)
    (member : Member) :
    Member :=
  if member.hasAttribute "Exposed" then member
  else
    { member with
      attributes := member.attributes ++ (container.attribute? "Exposed").toList }

theorem Definition.exposedMembers_eq_map_stamp
    (definition : Definition) :
    definition.exposedMembers = definition.members.map definition.stamp := by
  rw [exposedMembers]
  cases h : definition.attribute? "Exposed" with
  | none =>
      have hstamp : definition.stamp = id := by
        funext member
        simp [stamp, h]
      rw [hstamp, List.map_id]
  | some exposed =>
      refine List.map_congr_left ?_
      intro member _
      simp [stamp, h]

/-! ## Contributions -/

/-- The definitions that others add to. -/
def basesOf (all : List Definition) : List Definition :=
  all.filter Definition.isBase

/-- The definitions that add to others of their name. -/
def partialsOf (all : List Definition) : List Definition :=
  all.filter Definition.isPartial

/-- The definitions that bring mixins to interfaces. -/
def inclusionsOf (all : List Definition) : List Definition :=
  all.filter fun definition => definition.kind == .includes

/-- The partial definitions of the name and kind of a base. -/
def partsOf
    (all : List Definition)
    (base : Definition) :
    List Definition :=
  all.filter fun part => part.isPartial && (part.name == base.name && part.kind == base.kind)

/-- A base with the members of its partial definitions. -/
def withParts
    (all : List Definition)
    (base : Definition) :
    Definition :=
  { base with
    members := base.members ++ (partsOf all base).flatMap fun part => part.members.map part.stamp }

/-- The mixin that an inclusion brings to an interface, unless its members become global. -/
def mixinFor?
    (bases : List Definition)
    (base inclusion : Definition) :
    Option Definition :=
  if base.kind = .interface ∧ inclusion.name = base.name then
    (definitionOf? bases (inclusion.included.getD "") .mixin).filter fun mixin =>
      !isRouted mixin base
  else none

/-- The mixins that inclusions bring to an interface, as often as they do. -/
def mixinsOf
    (all : List Definition)
    (base : Definition) :
    List Definition :=
  (inclusionsOf all).filterMap (mixinFor? (basesOf all) base)

/-- The rows of members that make up a merged definition. -/
def contributions
    (all : List Definition)
    (base : Definition) :
    List (List Member) :=
  base.members ::
    ((partsOf all base).map (fun part => part.members.map part.stamp) ++
      (mixinsOf all base).map fun mixin => (withParts all mixin).members.map mixin.stamp)

/-- A base with all its contributions. -/
def flattened
    (all : List Definition)
    (base : Definition) :
    Definition :=
  { base with members := (contributions all base).flatten }

/-- Whatever adds to a definition finds it. -/
structure Linked (all : List Definition) : Prop where
  /-- Bases have different names. -/
  distinct : ((basesOf all).map Definition.name).Nodup
  /-- Partial definitions have a base. -/
  based : ∀ part ∈ all, part.isPartial →
    ∃ base ∈ basesOf all, base.name = part.name ∧ base.kind = part.kind
  /-- Inclusions have an interface and a mixin. -/
  joined : ∀ inclusion ∈ all, inclusion.kind = .includes →
    (∃ target ∈ basesOf all,
        target.name = inclusion.name ∧ target.kind = .interface) ∧
      ∃ mixin ∈ basesOf all,
        mixin.name = inclusion.included.getD "" ∧ mixin.kind = .mixin

/-- What a list of definitions must have to be merged. -/
structure Mergeable (all : List Definition) : Prop extends Linked all where
  /-- Contributions to the same definition have no name in common. -/
  separate : ∀ base ∈ basesOf all,
    (contributions all base).Pairwise fun first second => ¬SharesName first second

/-! ## Deliveries as contributions -/

section Deliveries

variable {all : List Definition} {base : Definition}

/-- The deliveries of all partial definitions. -/
def partDeliveries (all : List Definition) : List Delivery :=
  (partialsOf all).map partDelivery

/-- The rows of partial definitions that go to a name are of the kind of its base. -/
theorem rowsFor_partDeliveries
    (h : Linked all)
    (hbase : base ∈ basesOf all) :
    rowsFor (partDeliveries all) base.name =
      (partsOf all base).map fun part => part.members.map part.stamp := by
  have hfilter : (partialsOf all).filter (fun part => part.name == base.name) =
      partsOf all base := by
    rw [partialsOf, List.filter_filter, partsOf]
    refine List.filter_congr ?_
    intro part hpart
    cases hpartial : part.isPartial with
    | false =>
        simp
    | true =>
        obtain ⟨other, hother, hname, hkind⟩ := h.based part hpart hpartial
        by_cases hsame : part.name = base.name
        · rw [← List.inj_on_of_nodup_map h.distinct hother hbase (hname.trans hsame), hname, hkind]
          simp
        · simp [hsame]
  rw [rowsFor, partDeliveries, List.filter_map, List.map_map]
  change List.map _ ((partialsOf all).filter fun part => part.name == base.name) = _
  rw [hfilter]
  refine List.map_congr_left ?_
  intro part _
  exact part.exposedMembers_eq_map_stamp

theorem received_partDeliveries
    (h : Linked all)
    (hbase : base ∈ basesOf all) :
    received (partDeliveries all) base = withParts all base := by
  rw [received, withParts, rowsFor_partDeliveries h hbase, List.flatMap_def]

theorem rowsFor_inclusionDelivery?
    {inclusion : Definition}
    (h : Linked all)
    (hbase : base ∈ basesOf all)
    (hmem : inclusion ∈ all)
    (hkind : inclusion.kind = .includes) :
    rowsFor
        (inclusionDelivery? (basesOf all) (partDeliveries all) inclusion).toList
        base.name =
      (mixinFor? (basesOf all) base inclusion).toList.map fun mixin =>
        (withParts all mixin).members.map mixin.stamp := by
  obtain ⟨⟨target, htarget⟩, mixin, hmixin⟩ := h.joined inclusion hmem hkind
  have hends := (endsOf?_eq_some_iff h.distinct).2 ⟨htarget, hmixin⟩
  have hrow : (withParts all mixin).exposedMembers =
      (withParts all mixin).members.map mixin.stamp :=
    (withParts all mixin).exposedMembers_eq_map_stamp
  rw [inclusionDelivery?_of_ends hends, received_partDeliveries h hmixin.1, hrow, mixinFor?,
    (definitionOf?_eq_some_iff h.distinct).2 hmixin]
  by_cases hname : inclusion.name = base.name
  · have hsame : target = base :=
      List.inj_on_of_nodup_map h.distinct htarget.1 hbase (htarget.2.1.trans hname)
    subst hsame
    by_cases hrouted : isRouted mixin target
    · simp [hrouted, rowsFor]
    · simp [hrouted, htarget.2.2, hname, rowsFor_singleton, Option.filter_some]
  · have hother : target.name ≠ base.name := by
      rw [htarget.2.1]
      exact hname
    by_cases hrouted : isRouted mixin target
    · simp [hrouted, hname, rowsFor]
    · simp [hrouted, hname, hother, rowsFor_singleton]

theorem rowsFor_inclusions
    (h : Linked all)
    (hbase : base ∈ basesOf all) :
    rowsFor
        ((inclusionsOf all).filterMap
          (inclusionDelivery? (basesOf all) (partDeliveries all)))
        base.name =
      (mixinsOf all base).map fun mixin => (withParts all mixin).members.map mixin.stamp := by
  have hall : ∀ inclusion ∈ inclusionsOf all,
      inclusion ∈ all ∧ inclusion.kind = .includes := by
    intro inclusion hmem
    simpa [inclusionsOf] using hmem
  rw [mixinsOf, List.filterMap_eq_flatMap_toList, List.filterMap_eq_flatMap_toList]
  revert hall
  generalize inclusionsOf all = inclusions
  intro hall
  induction inclusions with
  | nil =>
      rfl
  | cons inclusion more ih =>
      obtain ⟨hmem, hkind⟩ := hall inclusion List.mem_cons_self
      rw [List.flatMap_cons, List.flatMap_cons, rowsFor_append, List.map_append,
        rowsFor_inclusionDelivery? h hbase hmem hkind,
        ih fun other hother => hall other (List.mem_cons_of_mem _ hother)]

/-- All rows that go to a base are its contributions. -/
theorem rowsFor_deliveriesUpTo
    (h : Linked all)
    (hbase : base ∈ basesOf all) :
    base.members ::
        rowsFor
          (deliveriesUpTo (basesOf all) (partDeliveries all)
            (inclusionsOf all))
          base.name =
      contributions all base := by
  rw [deliveriesUpTo, rowsFor_append, rowsFor_partDeliveries h hbase, rowsFor_inclusions h hbase,
    contributions]

theorem received_eq_flattened
    (h : Linked all)
    (hbase : base ∈ basesOf all) :
    received (deliveriesUpTo (basesOf all) (partDeliveries all) (inclusionsOf all)) base =
      flattened all base := by
  rw [flattened, ← rowsFor_deliveriesUpTo h hbase]
  rfl

end Deliveries

/-! ## The law of merging -/

/-- What a merge of linked definitions comes to. -/
def mergedOf (all : List Definition) : Merged where
  definitions :=
    ((basesOf all).filter fun base => base.kind != .mixin).map (flattened all)
  globals :=
    (inclusionsOf all).foldl
      (globalsAfter (basesOf all) (partDeliveries all)) []

theorem nodup_names_mergedOf
    {all : List Definition}
    (h : Linked all) :
    ((mergedOf all).definitions.map Definition.name).Nodup := by
  have hnames : (mergedOf all).definitions.map Definition.name =
      ((basesOf all).filter fun base => base.kind != .mixin).map Definition.name :=
    List.map_map
  rw [hnames]
  exact h.distinct.sublist (List.filter_sublist.map _)

/-- Definitions are linked and separate just if both passes go through. -/
theorem mergeable_iff
    (all : List Definition)
    (hdistinct : ((basesOf all).map Definition.name).Nodup) :
    Mergeable all ↔
      PartsGood (basesOf all) (partialsOf all) ∧
        InclusionsGood (basesOf all) (partDeliveries all)
          (inclusionsOf all) := by
  constructor
  · intro h
    have hseparate : Separate (basesOf all)
        (deliveriesUpTo (basesOf all) (partDeliveries all)
          (inclusionsOf all)) := by
      intro base hbase
      rw [rowsFor_deliveriesUpTo h.toLinked hbase]
      exact h.separate base hbase
    refine ⟨⟨?_, hseparate.left⟩, ?_, hseparate⟩
    · intro part hpart
      obtain ⟨hmem, hpartial⟩ := List.mem_filter.1 hpart
      exact h.based part hmem hpartial
    · intro inclusion hinclusion
      obtain ⟨hmem, hkind⟩ := List.mem_filter.1 hinclusion
      exact h.joined inclusion hmem (beq_iff_eq.1 hkind)
  · rintro ⟨⟨hbased, -⟩, hjoined, hseparate⟩
    have hlinked : Linked all := by
      refine ⟨hdistinct, ?_, ?_⟩
      · intro part hmem hpartial
        exact hbased part (List.mem_filter.2 ⟨hmem, hpartial⟩)
      · intro inclusion hmem hkind
        exact hjoined inclusion (List.mem_filter.2 ⟨hmem, beq_iff_eq.2 hkind⟩)
    refine ⟨hlinked, ?_⟩
    intro base hbase
    rw [← rowsFor_deliveriesUpTo hlinked hbase]
    exact hseparate base hbase

theorem mergeDefinitions_eq
    (all : List Definition) :
    mergeDefinitions all =
      (do
        let bases ← basesFrom [] (basesOf all)
        let whole ← (partialsOf all).foldlM addPartial bases
        let merged ← (inclusionsOf all).foldlM addInclusion ⟨whole, []⟩
        return ⟨merged.definitions.filter fun definition => definition.kind != .mixin,
          merged.globals⟩) := by
  rfl

theorem filter_mergedAfter
    {all : List Definition}
    (h : Linked all) :
    ((basesOf all).map
        (received (deliveriesUpTo (basesOf all) (partDeliveries all) (inclusionsOf all)))).filter
        (fun definition => definition.kind != .mixin) =
      ((basesOf all).filter fun base => base.kind != .mixin).map (flattened all) := by
  rw [List.filter_map]
  refine List.map_congr_left ?_
  intro base hbase
  exact received_eq_flattened h (List.mem_of_mem_filter hbase)

/-- A merge goes through just if the definitions are mergeable, and then every base has all its
contributions. -/
theorem mergeDefinitions_eq_ok_iff
    {all : List Definition} {merged : Merged} :
    mergeDefinitions all = .ok merged ↔ Mergeable all ∧ merged = mergedOf all := by
  rw [mergeDefinitions_eq, Reporting.bind_eq_ok_iff]
  by_cases hdistinct : ((basesOf all).map Definition.name).Nodup
  · have hbases : basesFrom [] (basesOf all) = .ok (basesOf all) := basesFrom_eq_ok hdistinct
    rw [mergeable_iff all hdistinct]
    constructor
    · rintro ⟨bases, hfirst, h⟩
      cases hbases.symm.trans hfirst
      obtain ⟨whole, hparts, h⟩ := Reporting.bind_eq_ok_iff.1 h
      obtain ⟨hgood, rfl⟩ := (foldlM_addPartial_eq_ok_iff hdistinct).1 hparts
      obtain ⟨final, hinclusions, h⟩ := Reporting.bind_eq_ok_iff.1 h
      obtain ⟨hall, rfl⟩ := (foldlM_addInclusion_eq_ok_iff hdistinct hgood.2).1 hinclusions
      cases h
      refine ⟨⟨hgood, hall⟩, ?_⟩
      have hlinked := ((mergeable_iff all hdistinct).2 ⟨hgood, hall⟩).toLinked
      rw [mergedOf, ← filter_mergedAfter hlinked]
      rfl
    · rintro ⟨⟨hgood, hall⟩, rfl⟩
      have hparts := (foldlM_addPartial_eq_ok_iff hdistinct).2 ⟨hgood, rfl⟩
      have hinclusions := (foldlM_addInclusion_eq_ok_iff hdistinct hgood.2).2 ⟨hall, rfl⟩
      have hlinked := ((mergeable_iff all hdistinct).2 ⟨hgood, hall⟩).toLinked
      refine ⟨_, hbases, Reporting.bind_eq_ok_iff.2 ⟨_, hparts, Reporting.bind_eq_ok_iff.2 ⟨_, hinclusions, ?_⟩⟩⟩
      rw [mergedOf, ← filter_mergedAfter hlinked]
      rfl
  · obtain ⟨name, -, herror⟩ := basesFrom_nil_eq_error hdistinct
    refine iff_of_false ?_ fun h => hdistinct h.1.distinct
    rintro ⟨bases, hfirst, -⟩
    rw [herror] at hfirst
    cases hfirst

end WebIdl
end FeatureProbes
