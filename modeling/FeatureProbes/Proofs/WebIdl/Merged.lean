import FeatureProbes.Proofs.WebIdl.Contributions

/-!
# What a merge gives and when it fails

A merge gives the bases other than mixins in the order of the fragments, each with its
contributions one behind the other.  It fails just where definitions are not linked or
contributions to one definition have a name in common, and two bases of the same name are found
before anything else.

Inclusions are no bases, so a partial definition never adds to one.
-/

namespace FeatureProbes
namespace WebIdl

/-- All definitions of two collections of fragments, in the order of their fragments. -/
def definitionsOf (spec custom : Fragments) : List Definition :=
  spec.definitions ++ custom.definitions

/-- The members that a partial definition adds go to exactly one base. -/
theorem Linked.existsUnique_base
    {all : List Definition} {part : Definition}
    (h : Linked all)
    (hmem : part ∈ all)
    (hpartial : part.isPartial) :
    ∃! base, base ∈ basesOf all ∧ part ∈ partsOf all base := by
  obtain ⟨base, hbase, hname, hkind⟩ := h.based part hmem hpartial
  refine ⟨base, ⟨hbase, ?_⟩, ?_⟩
  · exact List.mem_filter.2 ⟨hmem, by simp [hpartial, hname, hkind]⟩
  · rintro other ⟨hother, hpart⟩
    obtain ⟨-, hpart⟩ := List.mem_filter.1 hpart
    have hsame : part.name = other.name := by
      simp only [Bool.and_eq_true, beq_iff_eq] at hpart
      exact hpart.2.1
    exact List.inj_on_of_nodup_map h.distinct hother hbase (hsame.symm.trans hname.symm)

theorem Linked.exists_ends
    {all : List Definition} {inclusion : Definition}
    (h : Linked all)
    (hmem : inclusion ∈ all)
    (hkind : inclusion.kind = .includes) :
    ∃ target ∈ basesOf all, ∃ mixin ∈ basesOf all,
      target.name = inclusion.name ∧ target.kind = .interface ∧
      mixin.name = inclusion.included.getD "" ∧ mixin.kind = .mixin ∧
      (isRouted mixin target ∨ mixin ∈ mixinsOf all target) := by
  obtain ⟨⟨target, htarget, hname, hinterface⟩, mixin, hmixin⟩ := h.joined inclusion hmem hkind
  refine ⟨target, htarget, mixin, hmixin.1, hname, hinterface, hmixin.2.1, hmixin.2.2, ?_⟩
  by_cases hrouted : isRouted mixin target
  · exact Or.inl hrouted
  · refine Or.inr (List.mem_filterMap.2 ⟨inclusion, ?_, ?_⟩)
    · exact List.mem_filter.2 ⟨hmem, beq_iff_eq.2 hkind⟩
    · rw [mixinFor?, if_pos ⟨hinterface, hname.symm⟩,
        (definitionOf?_eq_some_iff h.distinct).2 hmixin, Option.filter_some,
        if_pos (by simpa using hrouted)]

theorem exists_sharesName_iff
    {rows : List (List Member)} :
    (∃ (i j : Nat) (first second : List Member), i ≠ j ∧
        rows[i]? = some first ∧ rows[j]? = some second ∧ SharesName first second) ↔
      ¬rows.Pairwise fun first second => ¬SharesName first second := by
  rw [List.pairwise_iff_getElem]
  constructor
  · rintro ⟨i, j, first, second, hne, hfirst, hsecond, hshares⟩ hall
    obtain ⟨hi, rfl⟩ := List.getElem?_eq_some_iff.1 hfirst
    obtain ⟨hj, rfl⟩ := List.getElem?_eq_some_iff.1 hsecond
    rcases Nat.lt_or_gt_of_ne hne with hlt | hlt
    · exact hall i j hi hj hlt hshares
    · exact hall j i hj hi hlt (sharesName_comm.1 hshares)
  · intro hnot
    by_contra hnone
    refine hnot ?_
    intro i j hi hj hlt hshares
    exact hnone ⟨i, j, rows[i], rows[j], Nat.ne_of_lt hlt, List.getElem?_eq_getElem hi,
      List.getElem?_eq_getElem hj, hshares⟩

/-- A merge that goes through gives, in the order of the fragments, the bases other than mixins with
all their contributions one behind the other.  Their names differ, and none of them is partial.
Every partial definition contributes to exactly one base, and every inclusion to its interface
unless it makes global members. -/
theorem merge_definitions_eq
    {spec custom : Fragments} {merged : Merged}
    (h : merge spec custom = .ok merged) :
    let all := definitionsOf spec custom
    merged.definitions =
        ((basesOf all).filter fun base => base.kind != .mixin).map (flattened all) ∧
      (merged.definitions.map Definition.name).Nodup ∧
      (∀ definition ∈ merged.definitions,
        definition.isPartial = false ∧ definition.kind ≠ .mixin ∧ definition.kind ≠ .includes) ∧
      (∀ part ∈ all, part.isPartial → ∃! base, base ∈ basesOf all ∧ part ∈ partsOf all base) ∧
      ∀ inclusion ∈ all, inclusion.kind = .includes →
        ∃ target ∈ basesOf all, ∃ mixin ∈ basesOf all,
          target.name = inclusion.name ∧ target.kind = .interface ∧
          mixin.name = inclusion.included.getD "" ∧ mixin.kind = .mixin ∧
          (isRouted mixin target ∨ mixin ∈ mixinsOf all target) := by
  intro all
  obtain ⟨hmergeable, rfl⟩ : Mergeable all ∧ merged = mergedOf all :=
    mergeDefinitions_eq_ok_iff.1 h
  refine ⟨rfl, nodup_names_mergedOf hmergeable.toLinked, ?_,
    fun part => hmergeable.existsUnique_base, fun inclusion => hmergeable.exists_ends⟩
  intro definition hdefinition
  obtain ⟨base, hbase, rfl⟩ := List.mem_map.1 hdefinition
  obtain ⟨hbase, hkind⟩ := List.mem_filter.1 hbase
  obtain ⟨-, hisBase⟩ := List.mem_filter.1 hbase
  simp only [Definition.isBase, Bool.and_eq_true, Bool.not_eq_true', bne_iff_ne] at hisBase hkind
  exact ⟨hisBase.1, hkind, hisBase.2⟩

/-- Fragments in which an interface has contributions of every sort. -/
def palette : Fragments :=
  .ofList
    [("base",
        [{ Definition.ofKind .interface "A" with members := [.ofKind .attr "x"] },
          { Definition.ofKind .mixin "M" with members := [.ofKind .attr "z"] }]),
      ("more",
        [{ Definition.ofKind .interface "A" with
            isPartial := true
            members := [.ofKind .attr "y"]
            attributes := [⟨"Exposed", some .wildcard, []⟩] },
          { Definition.ofKind .mixin "M" with
            isPartial := true
            members := [.ofKind .attr "w"] },
          { Definition.ofKind .includes "A" with included := some "M" }])]

/-- The interface of the palette gets its contributions in their order. -/
theorem merge_palette :
    ∃ merged, merge palette .empty = .ok merged ∧
      merged.definitions =
        [{ Definition.ofKind .interface "A" with
            members :=
              [.ofKind .attr "x",
                { Member.ofKind .attr "y" with attributes := [⟨"Exposed", some .wildcard, []⟩] },
                .ofKind .attr "z", .ofKind .attr "w"] }] ∧
      merged.definitions =
        ((basesOf (definitionsOf palette .empty)).filter fun base => base.kind != .mixin).map
          (flattened (definitionsOf palette .empty)) := by
  have h : merge palette .empty = .ok (mergedOf (definitionsOf palette .empty)) := rfl
  exact ⟨_, h, rfl, (merge_definitions_eq h).1⟩

/-- A merge fails just if two bases have the same name, a partial definition has no base of its name
and kind, an inclusion lacks its interface or its mixin, or two contributions to the same base have
a name in common.  If two bases have the same name, the error is that one is a duplicate, whatever
else is wrong. -/
theorem merge_fails_iff
    (spec custom : Fragments) :
    let all := definitionsOf spec custom
    ((∃ error, merge spec custom = .error error) ↔
        (¬((basesOf all).map Definition.name).Nodup) ∨
        (∃ part ∈ all, part.isPartial ∧
          ¬∃ base ∈ basesOf all, base.name = part.name ∧ base.kind = part.kind) ∨
        (∃ inclusion ∈ all, inclusion.kind = .includes ∧
          ((¬∃ target ∈ basesOf all, target.name = inclusion.name ∧ target.kind = .interface) ∨
            ¬∃ mixin ∈ basesOf all,
              mixin.name = inclusion.included.getD "" ∧ mixin.kind = .mixin)) ∨
        ∃ base ∈ basesOf all, ∃ (i j : Nat) (first second : List Member), i ≠ j ∧
          (contributions all base)[i]? = some first ∧
          (contributions all base)[j]? = some second ∧
          SharesName first second) ∧
      (¬((basesOf all).map Definition.name).Nodup →
        ∃ name, List.Duplicate name ((basesOf all).map Definition.name) ∧
          merge spec custom = .error (.duplicateDefinition name)) := by
  intro all
  have hok : (∃ merged, merge spec custom = .ok merged) ↔ Mergeable all := by
    constructor
    · rintro ⟨merged, h⟩
      exact (mergeDefinitions_eq_ok_iff.1 h).1
    · intro h
      exact ⟨mergedOf all, mergeDefinitions_eq_ok_iff.2 ⟨h, rfl⟩⟩
  have hfails : (∃ error, merge spec custom = .error error) ↔ ¬Mergeable all := by
    rw [← hok]
    cases merge spec custom with
    | ok merged =>
        simp
    | error error =>
        simp
  constructor
  · simp only [exists_sharesName_iff]
    rw [hfails]
    constructor
    · intro hnot
      by_contra hnone
      push Not at hnone
      obtain ⟨hdistinct, hbased, hjoined, hseparate⟩ := hnone
      exact hnot ⟨⟨hdistinct, hbased, hjoined⟩, hseparate⟩
    · rintro (h | ⟨part, hmem, hpartial, h⟩ | ⟨inclusion, hmem, hkind, h⟩ | ⟨base, hbase, h⟩)
        hmergeable
      · exact h hmergeable.distinct
      · exact h (hmergeable.based part hmem hpartial)
      · rcases h with h | h
        · exact h (hmergeable.joined inclusion hmem hkind).1
        · exact h (hmergeable.joined inclusion hmem hkind).2
      · exact h (hmergeable.separate base hbase)
  · intro hdistinct
    obtain ⟨name, hduplicate, herror⟩ := basesFrom_nil_eq_error hdistinct
    refine ⟨name, hduplicate, ?_⟩
    change mergeDefinitions all = _
    rw [mergeDefinitions_eq, herror]
    rfl

/-- Fragments with an inclusion and a partial inclusion of the same name. -/
def repeatedInclusion : Fragments :=
  .ofList
    [("base",
        [.ofKind .interface "A", .ofKind .mixin "M",
          { Definition.ofKind .includes "A" with included := some "M" },
          { Definition.ofKind .includes "A" with included := some "M", isPartial := true }])]

/-- An inclusion is no base, so a partial inclusion has none, although everything else is linked and
a definition of its name and kind is not partial. -/
theorem merge_repeatedInclusion :
    let all := definitionsOf repeatedInclusion .empty
    merge repeatedInclusion .empty = .error (.partialWithoutBase .includes "A") ∧
      ((basesOf all).map Definition.name).Nodup ∧
      (∀ part ∈ all, part.isPartial →
        ∃ definition ∈ all, ¬definition.isPartial ∧
          definition.name = part.name ∧ definition.kind = part.kind) ∧
      (∀ inclusion ∈ all, inclusion.kind = .includes →
        (∃ target ∈ basesOf all, target.name = inclusion.name ∧ target.kind = .interface) ∧
          ∃ mixin ∈ basesOf all,
            mixin.name = inclusion.included.getD "" ∧ mixin.kind = .mixin) ∧
      ¬∃ base ∈ basesOf all, ∃ (i j : Nat) (first second : List Member), i ≠ j ∧
        (contributions all base)[i]? = some first ∧
        (contributions all base)[j]? = some second ∧
        SharesName first second := by
  refine ⟨rfl, by decide, by decide, by decide, ?_⟩
  have hrows : ∀ base ∈ basesOf (definitionsOf repeatedInclusion .empty),
      ∀ row ∈ contributions (definitionsOf repeatedInclusion .empty) base, row.isEmpty := by
    decide
  rintro ⟨base, hbase, i, j, first, second, -, hfirst, -, name, ⟨member, hmember, -⟩, -⟩
  rw [List.isEmpty_iff.1 (hrows base hbase first (List.mem_of_getElem? hfirst))] at hmember
  exact List.not_mem_nil hmember

end WebIdl
end FeatureProbes
