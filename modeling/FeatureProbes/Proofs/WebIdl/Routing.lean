import FeatureProbes.Proofs.WebIdl.Order

/-!
# Where the members of the global mixin go

An inclusion of the mixin of global members is global if its interface is a global object.  Whether
it is depends on the bases alone, so each inclusion can be judged by itself: the global ones only
note one more target for the global members, and any other one brings its row of members to one
definition.

A merge is compared with the merge of the same definitions without one inclusion.  No base is lost
with it, so the contributions to every definition are the same but for the row that it brought.
-/

namespace FeatureProbes
namespace WebIdl

/-- Whether an inclusion brings the mixin of global members to a global object. -/
def isGlobalInclusion
    (bases : List Definition)
    (inclusion : Definition) :
    Bool :=
  inclusion.included == some globalMixin &&
    bases.any fun target =>
      target.kind == .interface && (target.name == inclusion.name && target.isGlobalObject)

/-- The inclusions of the mixin of global members into global objects. -/
def globalInclusions (all : List Definition) : List Definition :=
  (inclusionsOf all).filter (isGlobalInclusion (basesOf all))

/-- The members that a mixin brings: its own and those of its partial definitions, with their
restrictions. -/
def broughtBy
    (all : List Definition)
    (mixin : Definition) :
    List Member :=
  (mixin.members ++ (partsOf all mixin).flatMap fun part => part.members.map part.stamp).map
    mixin.stamp

/-- Some names are those of a list, each once and in the order in which the list has them first. -/
structure FirstMet (names firsts : List String) : Prop where
  mem_iff : ∀ name, name ∈ firsts ↔ name ∈ names
  ordered : firsts.Pairwise fun name later => names.idxOf name < names.idxOf later

/-- Two lists of definitions are the same but for a row of members that one definition of the second
has in addition. -/
def AddsRow
    (name : String)
    (row : List Member)
    (definitions definitions' : List Definition) : Prop :=
  ∃ (front back : List Definition) (target : Definition) (earlier later : List Member),
    target.name = name ∧
    definitions = front ++ { target with members := earlier ++ later } :: back ∧
    definitions' = front ++ { target with members := earlier ++ (row ++ later) } :: back

theorem firstMet_eraseDups
    (names : List String) :
    FirstMet names names.eraseDups := by
  refine ⟨fun name => List.mem_eraseDups, ?_⟩
  induction names using List.reverseRecOn with
  | nil =>
      exact List.Pairwise.nil
  | append_singleton names last ih =>
      have hsame : ∀ name ∈ names.eraseDups, (names ++ [last]).idxOf name = names.idxOf name :=
        fun name hname => List.idxOf_append_of_mem (List.mem_eraseDups.1 hname)
      have hfirst : names.eraseDups.Pairwise fun name later =>
          (names ++ [last]).idxOf name < (names ++ [last]).idxOf later := by
        refine ih.imp_of_mem ?_
        intro name later hname hlater hlt
        rwa [hsame name hname, hsame later hlater]
      rw [eraseDups_append_singleton]
      split
      · exact hfirst
      · rename_i hnew
        rw [List.pairwise_append]
        refine ⟨hfirst, List.pairwise_singleton _ _, ?_⟩
        intro name hname later hlater
        rw [List.mem_singleton.1 hlater, hsame name hname, List.idxOf_append_of_notMem hnew]
        have hlt := List.idxOf_lt_length_of_mem (List.mem_eraseDups.1 hname)
        omega

/-! ## Global inclusions -/

section Inclusions

variable {all : List Definition} {inclusion target mixin : Definition}

theorem endsOf?_of_linked
    (h : Linked all)
    (hmem : inclusion ∈ inclusionsOf all) :
    ∃ target mixin, endsOf? (basesOf all) inclusion = some (target, mixin) := by
  obtain ⟨hmem, hkind⟩ := List.mem_filter.1 hmem
  obtain ⟨⟨target, htarget⟩, mixin, hmixin⟩ := h.joined inclusion hmem (beq_iff_eq.1 hkind)
  exact ⟨target, mixin, (endsOf?_eq_some_iff h.distinct).2 ⟨htarget, hmixin⟩⟩

/-- An inclusion is global just if it is routed to the global members. -/
theorem isGlobalInclusion_eq_isRouted
    (h : Linked all)
    (hends : endsOf? (basesOf all) inclusion = some (target, mixin)) :
    isGlobalInclusion (basesOf all) inclusion = isRouted mixin target := by
  obtain ⟨⟨htarget, hname, hinterface⟩, -, hincluded, -⟩ :=
    (endsOf?_eq_some_iff h.distinct).1 hends
  have hmixin : (inclusion.included == some globalMixin) = (mixin.name == globalMixin) := by
    rw [hincluded]
    cases inclusion.included with
    | none =>
        rfl
    | some name =>
        rfl
  have hobject : ((basesOf all).any fun other =>
      other.kind == .interface && (other.name == inclusion.name && other.isGlobalObject)) =
        target.isGlobalObject := by
    rw [Bool.eq_iff_iff, List.any_eq_true]
    constructor
    · rintro ⟨other, hother, hfits⟩
      simp only [Bool.and_eq_true, beq_iff_eq] at hfits
      obtain ⟨-, hsame, hobject⟩ := hfits
      rwa [← List.inj_on_of_nodup_map h.distinct hother htarget (hsame.trans hname.symm)]
    · intro hobject
      exact ⟨target, htarget, by simp [hname, hinterface, hobject]⟩
  rw [isGlobalInclusion, isRouted, hmixin, hobject]

theorem routedTarget?_eq_ite
    (h : Linked all)
    (hmem : inclusion ∈ inclusionsOf all) :
    routedTarget? (basesOf all) inclusion =
      if isGlobalInclusion (basesOf all) inclusion then some inclusion.name else none := by
  obtain ⟨target, mixin, hends⟩ := endsOf?_of_linked h hmem
  have hname := ((endsOf?_eq_some_iff h.distinct).1 hends).1.2.1
  rw [isGlobalInclusion_eq_isRouted h hends, routedTarget?, hends, Option.bind_some, ← hname]

/-- Global members have as targets the global objects of the global inclusions. -/
theorem routedTargets_eq_eraseDups
    (h : Linked all) :
    routedTargets (basesOf all) (inclusionsOf all) =
      ((globalInclusions all).map Definition.name).eraseDups := by
  have hall : ∀ inclusion ∈ inclusionsOf all, routedTarget? (basesOf all) inclusion =
      if isGlobalInclusion (basesOf all) inclusion then some inclusion.name else none :=
    fun inclusion hmem => routedTarget?_eq_ite h hmem
  have hnames : (inclusionsOf all).filterMap (routedTarget? (basesOf all)) =
      (globalInclusions all).map Definition.name := by
    rw [List.filterMap_congr hall, globalInclusions]
    induction inclusionsOf all with
    | nil =>
        rfl
    | cons inclusion more ih =>
        by_cases hglobal : isGlobalInclusion (basesOf all) inclusion
        · simp [hglobal, ih]
        · simp [hglobal, ih]
  rw [routedTargets, hnames]

theorem globals_eq_nil
    (h : Linked all)
    (hnone : globalInclusions all = []) :
    (mergedOf all).globals = [] := by
  rw [mergedOf_globals h, routedTargets_eq_eraseDups h, hnone]
  cases definitionOf? (basesOf all) globalMixin .mixin with
  | none =>
      rfl
  | some mixin =>
      rfl

/-- If an inclusion is global, the global members are those of the mixin, with the same targets. -/
theorem globals_eq_map
    (h : Linked all)
    (hsome : globalInclusions all ≠ [])
    (hmixin : definitionOf? (basesOf all) globalMixin .mixin = some mixin) :
    (mergedOf all).globals = (broughtBy all mixin).map fun member =>
      ⟨member, globalMixin, ((globalInclusions all).map Definition.name).eraseDups⟩ := by
  have htargets : ((globalInclusions all).map Definition.name).eraseDups ≠ [] := by
    rwa [ne_eq, eraseDups_eq_nil_iff, List.map_eq_nil_iff]
  have hname : (withParts all mixin).name = globalMixin :=
    ((definitionOf?_eq_some_iff h.distinct).1 hmixin).2.1
  rw [mergedOf_globals h, routedTargets_eq_eraseDups h, hmixin, Option.elim_some, globalsFor,
    if_neg (by simpa using htargets), hname, Definition.exposedMembers_eq_map_stamp]
  rfl

/-- All members that come from the global mixin have the interface of a global inclusion as one of
their targets. -/
theorem globals_of_globalInclusion
    (h : Linked all)
    (hglobal : inclusion ∈ globalInclusions all)
    (hmixin : definitionOf? (basesOf all) globalMixin .mixin = some mixin) :
    (mergedOf all).globals.map GlobalMember.member = broughtBy all mixin ∧
      ∀ item ∈ (mergedOf all).globals, inclusion.name ∈ item.targets := by
  rw [globals_eq_map h (List.ne_nil_of_mem hglobal) hmixin]
  constructor
  · rw [List.map_map]
    exact List.map_id _
  · intro item hitem
    obtain ⟨member, -, rfl⟩ := List.mem_map.1 hitem
    exact List.mem_eraseDups.2 (List.mem_map_of_mem hglobal)

/-- An inclusion of the global mixin brings it to some interface. -/
theorem endsOf?_of_included
    (h : Linked all)
    (hmem : inclusion ∈ inclusionsOf all)
    (hincluded : inclusion.included = some globalMixin) :
    ∃ target mixin, endsOf? (basesOf all) inclusion = some (target, mixin) ∧
      definitionOf? (basesOf all) globalMixin .mixin = some mixin := by
  obtain ⟨target, mixin, hends⟩ := endsOf?_of_linked h hmem
  obtain ⟨-, hmixin, hname, hkind⟩ := (endsOf?_eq_some_iff h.distinct).1 hends
  rw [hincluded, Option.getD_some] at hname
  exact ⟨target, mixin, hends, (definitionOf?_eq_some_iff h.distinct).2 ⟨hmixin, hname, hkind⟩⟩

theorem exists_globalMixin
    (h : Linked all)
    (hsome : globalInclusions all ≠ []) :
    ∃ mixin, definitionOf? (basesOf all) globalMixin .mixin = some mixin := by
  obtain ⟨inclusion, hinclusion⟩ := List.exists_mem_of_ne_nil _ hsome
  obtain ⟨hinclusion, hglobal⟩ := List.mem_filter.1 hinclusion
  rw [isGlobalInclusion, Bool.and_eq_true, beq_iff_eq] at hglobal
  obtain ⟨_, mixin, -, hmixin⟩ := endsOf?_of_included h hinclusion hglobal.1
  exact ⟨mixin, hmixin⟩

end Inclusions

/-! ## Leaving out an inclusion -/

section LeftOut

variable {before after : List Definition} {inclusion base target mixin : Definition}

theorem basesOf_leftOut
    (hkind : inclusion.kind = .includes) :
    basesOf (before ++ inclusion :: after) = basesOf (before ++ after) := by
  have hbase : inclusion.isBase = false := by
    simp [Definition.isBase, hkind]
  simp [basesOf, hbase]

theorem inclusionsOf_leftOut
    (hkind : inclusion.kind = .includes) :
    inclusionsOf (before ++ inclusion :: after) =
      inclusionsOf before ++ inclusion :: inclusionsOf after := by
  rw [inclusionsOf, List.filter_append, List.filter_cons_of_pos (by simp [hkind])]
  rfl

/-- No inclusion of linked definitions is partial, so none is a part of a definition. -/
theorem partsOf_leftOut
    (h : Linked (before ++ inclusion :: after))
    (hkind : inclusion.kind = .includes)
    (base : Definition) :
    partsOf (before ++ inclusion :: after) base = partsOf (before ++ after) base := by
  have hwhole : inclusion.isPartial = false := by
    cases hpartial : inclusion.isPartial with
    | false =>
        rfl
    | true =>
        obtain ⟨other, hother, -, hsame⟩ := h.based inclusion (by simp) hpartial
        have hbase := List.of_mem_filter hother
        simp [Definition.isBase, hsame, hkind] at hbase
  simp [partsOf, hwhole]

theorem withParts_leftOut
    (h : Linked (before ++ inclusion :: after))
    (hkind : inclusion.kind = .includes)
    (base : Definition) :
    withParts (before ++ inclusion :: after) base = withParts (before ++ after) base := by
  rw [withParts, withParts, partsOf_leftOut h hkind]

theorem Linked.leftOut
    (h : Linked (before ++ inclusion :: after))
    (hkind : inclusion.kind = .includes) :
    Linked (before ++ after) := by
  have hsubset : before ++ after ⊆ before ++ inclusion :: after :=
    ((List.sublist_cons_self inclusion after).append_left before).subset
  obtain ⟨hdistinct, hbased, hjoined⟩ := h
  rw [basesOf_leftOut hkind] at hdistinct hbased hjoined
  exact ⟨hdistinct, fun part hpart => hbased part (hsubset hpart),
    fun other hother => hjoined other (hsubset hother)⟩

/-- The inclusion adds at most one row to the contributions to a definition. -/
theorem contributions_leftOut
    (h : Linked (before ++ inclusion :: after))
    (hkind : inclusion.kind = .includes)
    (base : Definition) :
    ∃ earlier later : List (List Member),
      contributions (before ++ after) base = earlier ++ later ∧
      contributions (before ++ inclusion :: after) base =
        earlier ++
          ((mixinFor? (basesOf (before ++ after)) base inclusion).toList.map
              (broughtBy (before ++ after)) ++
            later) := by
  let bring := fun mixin : Definition =>
    (withParts (before ++ after) mixin).members.map mixin.stamp
  let brought := fun inclusions : List Definition =>
    (inclusions.filterMap (mixinFor? (basesOf (before ++ after)) base)).map bring
  refine
    ⟨base.members ::
        ((partsOf (before ++ after) base).map (fun part => part.members.map part.stamp) ++
          brought (inclusionsOf before)),
      brought (inclusionsOf after), ?_, ?_⟩
  · have hinclusions : inclusionsOf (before ++ after) = inclusionsOf before ++ inclusionsOf after :=
      List.filter_append ..
    simp [contributions, mixinsOf, hinclusions, brought, bring]
  · have hsplit : brought (inclusion :: inclusionsOf after) =
        (mixinFor? (basesOf (before ++ after)) base inclusion).toList.map bring ++
          brought (inclusionsOf after) := by
      cases hmixin : mixinFor? (basesOf (before ++ after)) base inclusion with
      | none =>
          simp [brought, hmixin]
      | some mixin =>
          simp [brought, hmixin]
    change _ = _ ++ ((mixinFor? (basesOf (before ++ after)) base inclusion).toList.map bring ++ _)
    rw [← hsplit]
    simp [contributions, mixinsOf, inclusionsOf_leftOut hkind, basesOf_leftOut hkind,
      partsOf_leftOut h hkind, withParts_leftOut h hkind, brought, bring]

theorem Mergeable.leftOut
    (h : Mergeable (before ++ inclusion :: after))
    (hkind : inclusion.kind = .includes) :
    Mergeable (before ++ after) := by
  refine ⟨h.toLinked.leftOut hkind, ?_⟩
  intro base hbase
  obtain ⟨earlier, later, hrest, hall⟩ :
      ∃ earlier later : List (List Member), contributions (before ++ after) base = _ ∧ _ :=
    contributions_leftOut h.toLinked hkind base
  rw [← basesOf_leftOut hkind] at hbase
  have hseparate := h.separate base hbase
  rw [hall] at hseparate
  rw [hrest]
  exact hseparate.sublist ((List.sublist_append_right _ later).append_left earlier)

/-- A definition that the inclusion brings nothing to is the same without it. -/
theorem flattened_leftOut
    (h : Linked (before ++ inclusion :: after))
    (hkind : inclusion.kind = .includes)
    (hnone : mixinFor? (basesOf (before ++ after)) base inclusion = none) :
    flattened (before ++ inclusion :: after) base = flattened (before ++ after) base := by
  obtain ⟨earlier, later, hrest, hall⟩ :
      ∃ earlier later : List (List Member), contributions (before ++ after) base = _ ∧ _ :=
    contributions_leftOut h hkind base
  rw [flattened, flattened, hall, hrest, hnone]
  rfl

/-- The interface of an inclusion that is not global gets the members of the mixin. -/
theorem flattened_leftOut_target
    (h : Linked (before ++ inclusion :: after))
    (hkind : inclusion.kind = .includes)
    (hsome : mixinFor? (basesOf (before ++ after)) base inclusion = some mixin) :
    ∃ earlier later : List Member,
      flattened (before ++ after) base = { base with members := earlier ++ later } ∧
      flattened (before ++ inclusion :: after) base =
        { base with members := earlier ++ (broughtBy (before ++ after) mixin ++ later) } := by
  obtain ⟨earlier, later, hrest, hall⟩ :
      ∃ earlier later : List (List Member), contributions (before ++ after) base = _ ∧ _ :=
    contributions_leftOut h hkind base
  refine ⟨earlier.flatten, later.flatten, ?_, ?_⟩
  · rw [flattened, hrest, List.flatten_append]
  · rw [flattened, hall, hsome]
    simp

theorem broughtBy_leftOut
    (h : Linked (before ++ inclusion :: after))
    (hkind : inclusion.kind = .includes) :
    broughtBy (before ++ inclusion :: after) mixin = broughtBy (before ++ after) mixin := by
  rw [broughtBy, broughtBy, partsOf_leftOut h hkind]

/-- A global inclusion brings nothing to any definition. -/
theorem mergedOf_definitions_leftOut
    (h : Linked (before ++ inclusion :: after))
    (hkind : inclusion.kind = .includes)
    (hends : endsOf? (basesOf (before ++ after)) inclusion = some (target, mixin))
    (hrouted : isRouted mixin target) :
    (mergedOf (before ++ inclusion :: after)).definitions =
      (mergedOf (before ++ after)).definitions := by
  have hdistinct := (h.leftOut hkind).distinct
  obtain ⟨⟨htarget, hname, -⟩, hmixin⟩ := (endsOf?_eq_some_iff hdistinct).1 hends
  rw [mergedOf, mergedOf, basesOf_leftOut hkind]
  refine List.map_congr_left ?_
  intro base hbase
  refine flattened_leftOut h hkind ?_
  rw [mixinFor?, (definitionOf?_eq_some_iff hdistinct).2 hmixin]
  by_cases hsame : inclusion.name = base.name
  · have heq : target = base :=
      List.inj_on_of_nodup_map hdistinct htarget (List.mem_of_mem_filter hbase)
        (hname.trans hsame)
    simp [Option.filter_some, ← heq, hrouted]
  · simp [hsame]

/-- An inclusion that is not global adds the members of its mixin to its interface, and nothing to
any other definition. -/
theorem mergedOf_definitions_addsRow
    (h : Linked (before ++ inclusion :: after))
    (hkind : inclusion.kind = .includes)
    (hends : endsOf? (basesOf (before ++ after)) inclusion = some (target, mixin))
    (hrouted : ¬isRouted mixin target) :
    AddsRow inclusion.name (broughtBy (before ++ after) mixin)
      (mergedOf (before ++ after)).definitions
      (mergedOf (before ++ inclusion :: after)).definitions := by
  have hdistinct := (h.leftOut hkind).distinct
  obtain ⟨⟨htarget, hname, hinterface⟩, hmixin⟩ := (endsOf?_eq_some_iff hdistinct).1 hends
  have hbrings : mixinFor? (basesOf (before ++ after)) target inclusion = some mixin := by
    rw [mixinFor?, if_pos ⟨hinterface, hname.symm⟩,
      (definitionOf?_eq_some_iff hdistinct).2 hmixin, Option.filter_some,
      if_pos (by simpa using hrouted)]
  have hmem : target ∈ (basesOf (before ++ after)).filter fun base => base.kind != .mixin :=
    List.mem_filter.2 ⟨htarget, by simp [hinterface]⟩
  obtain ⟨front, back, hsplit⟩ := List.mem_iff_append.1 hmem
  obtain ⟨earlier, later, hrest, hall⟩ :
      ∃ earlier later : List Member, flattened (before ++ after) target = _ ∧ _ :=
    flattened_leftOut_target h hkind hbrings
  have hothers : ∀ base ∈ front ++ back,
      flattened (before ++ inclusion :: after) base = flattened (before ++ after) base := by
    intro base hbase
    refine flattened_leftOut h hkind ?_
    have hnames : ((front ++ target :: back).map Definition.name).Nodup := by
      rw [← hsplit]
      exact hdistinct.sublist (List.filter_sublist.map _)
    rw [List.map_append, List.map_cons, List.nodup_middle, List.nodup_cons, ← List.map_append]
      at hnames
    have hother : ¬inclusion.name = base.name := by
      intro hsame
      rw [hname, hsame] at hnames
      exact hnames.1 (List.mem_map_of_mem hbase)
    rw [mixinFor?, if_neg fun hfits => hother hfits.2]
  refine ⟨front.map (flattened (before ++ after)), back.map (flattened (before ++ after)), target,
    earlier, later, hname, ?_, ?_⟩
  · rw [mergedOf, hsplit, List.map_append, List.map_cons, hrest]
  · rw [mergedOf, basesOf_leftOut hkind, hsplit, List.map_append, List.map_cons, hall,
      List.map_congr_left fun base hbase => hothers base (List.mem_append_left back hbase),
      List.map_congr_left fun base hbase => hothers base (List.mem_append_right front hbase)]

/-- An inclusion that is not global leaves the global members as they are. -/
theorem mergedOf_globals_leftOut
    (h : Linked (before ++ inclusion :: after))
    (hkind : inclusion.kind = .includes)
    (hglobal : ¬isGlobalInclusion (basesOf (before ++ after)) inclusion) :
    (mergedOf (before ++ inclusion :: after)).globals = (mergedOf (before ++ after)).globals := by
  have hnone : routedTarget? (basesOf (before ++ after)) inclusion = none := by
    have hmem : inclusion ∈ inclusionsOf (before ++ inclusion :: after) := by
      rw [inclusionsOf_leftOut hkind]
      simp
    rw [← basesOf_leftOut hkind] at hglobal ⊢
    rw [routedTarget?_eq_ite h hmem, if_neg hglobal]
  have hinclusions : inclusionsOf (before ++ after) = inclusionsOf before ++ inclusionsOf after :=
    List.filter_append ..
  have htargets : routedTargets (basesOf (before ++ after))
      (inclusionsOf (before ++ inclusion :: after)) =
        routedTargets (basesOf (before ++ after)) (inclusionsOf (before ++ after)) := by
    rw [inclusionsOf_leftOut hkind, hinclusions, routedTargets, routedTargets,
      List.filterMap_append, List.filterMap_append, List.filterMap_cons_none hnone]
  rw [mergedOf_globals h, mergedOf_globals (h.leftOut hkind), basesOf_leftOut hkind, htargets]
  simp only [withParts_leftOut h hkind]

end LeftOut

/-- If no inclusion brings the mixin of global members to a global object, a merge gives no global
members.  Otherwise it gives the members of the mixin as they are brought, each with the same
targets: the global objects of these inclusions, in the order of the first inclusion of each.

Such an inclusion adds nothing to any definition, and all members of the mixin have its interface as
a target.  An inclusion of the mixin into another interface adds all of them to this interface, and
changes no other definition and no global member. -/
theorem merge_globalMixin
    {spec custom : Fragments} {merged : Merged}
    (h : merge spec custom = .ok merged) :
    let all := definitionsOf spec custom
    (globalInclusions all = [] → merged.globals = []) ∧
      (globalInclusions all ≠ [] →
        ∃ mixin ∈ basesOf all, mixin.name = globalMixin ∧ mixin.kind = .mixin ∧
          ∃ targets, FirstMet ((globalInclusions all).map Definition.name) targets ∧
            merged.globals =
              (broughtBy all mixin).map fun member => ⟨member, globalMixin, targets⟩) ∧
      ∀ (before after : List Definition) (inclusion : Definition) (spec' custom' : Fragments),
        all = before ++ inclusion :: after → definitionsOf spec' custom' = before ++ after →
        inclusion.kind = .includes → inclusion.included = some globalMixin →
        ∃ mixin ∈ basesOf all, mixin.name = globalMixin ∧ mixin.kind = .mixin ∧
          ∃ merged', merge spec' custom' = .ok merged' ∧
            (inclusion ∈ globalInclusions all →
              merged'.definitions = merged.definitions ∧
              merged.globals.map GlobalMember.member = broughtBy all mixin ∧
              ∀ item ∈ merged.globals, inclusion.name ∈ item.targets) ∧
            (inclusion ∉ globalInclusions all →
              merged'.globals = merged.globals ∧
              AddsRow inclusion.name (broughtBy all mixin) merged'.definitions
                merged.definitions) := by
  intro all
  obtain ⟨hmergeable, rfl⟩ : Mergeable all ∧ merged = mergedOf all :=
    mergeDefinitions_eq_ok_iff.1 h
  have hlinked := hmergeable.toLinked
  refine ⟨globals_eq_nil hlinked, ?_, ?_⟩
  · intro hsome
    obtain ⟨mixin, hmixin⟩ := exists_globalMixin hlinked hsome
    obtain ⟨hmem, hname, hkind⟩ := (definitionOf?_eq_some_iff hlinked.distinct).1 hmixin
    exact ⟨mixin, hmem, hname, hkind, _, firstMet_eraseDups _, globals_eq_map hlinked hsome hmixin⟩
  · intro before after inclusion spec' custom' hall hrest hkind hincluded
    have hmem : inclusion ∈ inclusionsOf all :=
      List.mem_filter.2 ⟨by simp [hall], by simp [hkind]⟩
    obtain ⟨target, mixin, hends, hmixin⟩ := endsOf?_of_included hlinked hmem hincluded
    obtain ⟨hmixinMem, hname, hmixinKind⟩ := (definitionOf?_eq_some_iff hlinked.distinct).1 hmixin
    have hiff : isGlobalInclusion (basesOf all) inclusion = isRouted mixin target :=
      isGlobalInclusion_eq_isRouted hlinked hends
    refine ⟨mixin, hmixinMem, hname, hmixinKind, mergedOf (before ++ after), ?_, ?_, ?_⟩
    · change mergeDefinitions (definitionsOf spec' custom') = _
      rw [hrest]
      exact mergeDefinitions_eq_ok_iff.2 ⟨Mergeable.leftOut (hall ▸ hmergeable) hkind, rfl⟩
    · intro hglobal
      have hrouted : isRouted mixin target := hiff ▸ List.of_mem_filter hglobal
      refine ⟨?_, globals_of_globalInclusion hlinked hglobal hmixin⟩
      rw [hall] at hlinked hends ⊢
      rw [basesOf_leftOut hkind] at hends
      exact (mergedOf_definitions_leftOut hlinked hkind hends hrouted).symm
    · intro hother
      have hlocal : ¬isGlobalInclusion (basesOf all) inclusion :=
        fun hglobal => hother (List.mem_filter.2 ⟨hmem, hglobal⟩)
      have hrouted : ¬isRouted mixin target := by
        rwa [← hiff]
      rw [hall] at hlinked hends hlocal ⊢
      rw [basesOf_leftOut hkind] at hends hlocal
      rw [broughtBy_leftOut hlinked hkind]
      exact ⟨(mergedOf_globals_leftOut hlinked hkind hlocal).symm,
        mergedOf_definitions_addsRow hlinked hkind hends hrouted⟩

/-- In the workshop two global objects and an interface include the mixin of global members. -/
theorem merge_workshop_globals :
    let spec : Fragments := SortedMap.ofList [("all", workshop)]
    let without : Fragments := SortedMap.ofList [("all", workshop.take 8)]
    let row : List Member :=
      [{ Member.ofKind .operation "f" with attributes := [⟨"Exposed", some .wildcard, []⟩] },
        { Member.ofKind .operation "g" with attributes := [⟨"Exposed", some .wildcard, []⟩] }]
    ∃ merged merged',
      merge spec .empty = .ok merged ∧ merge without .empty = .ok merged' ∧
      merged.globals = row.map (fun member => ⟨member, globalMixin, ["Window", "W"]⟩) ∧
      merged'.globals = merged.globals ∧
      AddsRow "A" row merged'.definitions merged.definitions := by
  intro spec without row
  have h : merge spec .empty = .ok (mergedOf (definitionsOf spec .empty)) := rfl
  have hlocal : workshop[8] ∉ globalInclusions (definitionsOf spec .empty) := by
    have hnames : ∀ inclusion ∈ globalInclusions (definitionsOf spec .empty),
        inclusion.name ≠ "A" := by
      decide
    exact fun hmem => hnames _ hmem rfl
  obtain ⟨mixin, hmixin, hname, -, merged', h', -, hadds⟩ :=
    (merge_globalMixin h).2.2 (workshop.take 8) [] workshop[8] without .empty rfl rfl rfl rfl
  obtain ⟨hglobals, hrow⟩ := hadds hlocal
  refine ⟨_, merged', h, h', rfl, hglobals, ?_⟩
  have hthis : mixin = workshop[3] := by
    have hdistinct : ((basesOf (definitionsOf spec .empty)).map Definition.name).Nodup := by
      decide
    have hbase : workshop[3] ∈ basesOf (definitionsOf spec .empty) :=
      List.getElem_mem (show 3 < (basesOf (definitionsOf spec .empty)).length by decide)
    exact List.inj_on_of_nodup_map hdistinct hmixin hbase hname
  rw [hthis] at hrow
  exact hrow

end WebIdl
end FeatureProbes
