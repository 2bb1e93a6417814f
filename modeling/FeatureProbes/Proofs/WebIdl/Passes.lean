import FeatureProbes.Proofs.Reporting
import FeatureProbes.Proofs.WebIdl.Delivery
import Mathlib.Data.List.Duplicate

/-!
# The passes of a merge

A merge takes definitions in three passes: the definitions that others add to, the partial ones,
and the inclusions.  The first pass fails just if two names are the same.  Each step of the others
is a delivery, so what a pass comes to is known from the steps that it has taken, and whether it
succeeds is a property of the list of these steps that every beginning of the list shares.

Inclusions bring members to interfaces only, so a mixin stays during the last pass what its partial
definitions have made it.
-/

namespace FeatureProbes
namespace WebIdl

/-! ## The first pass -/

/-- The first pass keeps definitions as they are if their names differ. -/
theorem basesFrom_eq_ok
    {seen rest : List Definition}
    (h : ((seen ++ rest).map Definition.name).Nodup) :
    basesFrom seen rest = .ok (seen ++ rest) := by
  induction rest generalizing seen with
  | nil =>
      rw [basesFrom, List.append_nil]
  | cons definition more ih =>
      have hnew : findDefinition seen definition.name = none := by
        rw [findDefinition, List.find?_eq_none]
        intro other hother hname
        rw [List.map_append, List.nodup_append] at h
        exact h.2.2 other.name (List.mem_map_of_mem hother) definition.name (by simp)
          (by simpa using hname)
      rw [basesFrom, hnew]
      change basesFrom (seen ++ [definition]) more = _
      rw [List.append_cons seen definition more] at h ⊢
      exact ih h

/-- The first pass fails as a duplicate of some repeated name if names repeat. -/
theorem basesFrom_eq_error
    {seen rest : List Definition}
    (hseen : (seen.map Definition.name).Nodup)
    (h : ¬((seen ++ rest).map Definition.name).Nodup) :
    ∃ name, List.Duplicate name ((seen ++ rest).map Definition.name) ∧
      basesFrom seen rest = .error (.duplicateDefinition name) := by
  induction rest generalizing seen with
  | nil =>
      rw [List.append_nil] at h
      exact absurd hseen h
  | cons definition more ih =>
      rw [basesFrom]
      cases hfind : findDefinition seen definition.name with
      | some other =>
          refine ⟨definition.name, ?_, rfl⟩
          rw [findDefinition] at hfind
          have hname : other.name = definition.name := by
            simpa using List.find?_some hfind
          have hmem : definition.name ∈ seen.map Definition.name :=
            List.mem_map.2 ⟨other, List.mem_of_find?_eq_some hfind, hname⟩
          rw [List.duplicate_iff_two_le_count, List.map_append, List.map_cons, List.count_append,
            List.count_cons_self]
          have hcount := List.count_pos_iff.2 hmem
          omega
      | none =>
          change ∃ name, _ ∧ basesFrom (seen ++ [definition]) more = _
          rw [List.append_cons seen definition more] at h ⊢
          refine ih ?_ h
          rw [List.map_append, List.nodup_append]
          refine ⟨hseen, List.nodup_singleton _, ?_⟩
          intro name hname other hother heq
          obtain ⟨earlier, hearlier, rfl⟩ := List.mem_map.1 hname
          rw [List.map_singleton, List.mem_singleton] at hother
          rw [findDefinition, List.find?_eq_none] at hfind
          exact hfind earlier hearlier (by simp [heq, hother])

theorem basesFrom_nil_eq_error
    {definitions : List Definition}
    (h : ¬(definitions.map Definition.name).Nodup) :
    ∃ name, List.Duplicate name (definitions.map Definition.name) ∧
      basesFrom [] definitions = .error (.duplicateDefinition name) :=
  @basesFrom_eq_error [] definitions List.nodup_nil h

/-! ## Passes by steps -/

/-- A pass whose state is known from the items it has taken, and whose steps succeed just if these
items are good, succeeds just if all items are. -/
theorem foldlM_eq_ok_iff
    {σ ι ε : Type} {step : σ → ι → Except ε σ}
    (state : List ι → σ)
    (Good : List ι → Prop)
    (hleft : ∀ {first second}, Good (first ++ second) → Good first)
    (hstep : ∀ {done item next}, Good done →
      (step (state done) item = .ok next ↔
        Good (done ++ [item]) ∧ next = state (done ++ [item])))
    {done items : List ι} {result : σ}
    (hdone : Good done) :
    items.foldlM step (state done) = .ok result ↔
      Good (done ++ items) ∧ result = state (done ++ items) := by
  induction items generalizing done with
  | nil =>
      rw [List.foldlM_nil, List.append_nil]
      constructor
      · intro h
        cases h
        exact ⟨hdone, rfl⟩
      · rintro ⟨-, rfl⟩
        rfl
  | cons item items ih =>
      rw [List.foldlM_cons, List.append_cons, Reporting.bind_eq_ok_iff]
      constructor
      · rintro ⟨next, hnext, hrest⟩
        obtain ⟨hgood, rfl⟩ := (hstep hdone).1 hnext
        exact (ih hgood).1 hrest
      · rintro ⟨hgood, hresult⟩
        have hitem : Good (done ++ [item]) := hleft hgood
        exact ⟨_, (hstep hdone).2 ⟨hitem, rfl⟩, (ih hitem).2 ⟨hgood, hresult⟩⟩

/-! ## The pass of partial definitions -/

/-- What a partial definition brings. -/
def partDelivery (part : Definition) : Delivery :=
  ⟨part.name, part.exposedMembers⟩

/-- The partial definitions have definitions to add to, and their rows are separate. -/
def PartsGood
    (bases parts : List Definition) : Prop :=
  (∀ part ∈ parts, ∃ base ∈ bases, base.name = part.name ∧ base.kind = part.kind) ∧
    Separate bases (parts.map partDelivery)

section Parts

variable {bases parts : List Definition}

theorem PartsGood.left
    {first second : List Definition}
    (h : PartsGood bases (first ++ second)) :
    PartsGood bases first := by
  obtain ⟨hbase, hseparate⟩ := h
  rw [List.map_append] at hseparate
  exact ⟨fun part hpart => hbase part (List.mem_append_left _ hpart), hseparate.left⟩

/-- A partial definition is one delivery to the definition of its name and kind. -/
theorem addPartial_eq_ok_iff
    {done : List Definition} {part : Definition} {next : List Definition}
    (hnodup : (bases.map Definition.name).Nodup)
    (hdone : PartsGood bases done) :
    addPartial (bases.map (received (done.map partDelivery))) part = .ok next ↔
      PartsGood bases (done ++ [part]) ∧
        next = bases.map (received ((done ++ [part]).map partDelivery)) := by
  have hfound : (findDefinition (bases.map (received (done.map partDelivery))) part.name).filter
      (fun base => base.kind == part.kind) =
        (definitionOf? bases part.name part.kind).map (received (done.map partDelivery)) :=
    definitionOf?_map_received
  rw [addPartial, hfound]
  cases hbase : definitionOf? bases part.name part.kind with
  | none =>
      refine iff_of_false (by simp) ?_
      rintro ⟨⟨hall, -⟩, -⟩
      obtain ⟨base, hmem, hname, hkind⟩ := hall part (by simp)
      rw [(definitionOf?_eq_some_iff hnodup).2 ⟨hmem, hname, hkind⟩] at hbase
      cases hbase
  | some base =>
      obtain ⟨hmem, hname, hkind⟩ := (definitionOf?_eq_some_iff hnodup).1 hbase
      rw [Option.map_some, List.map_append]
      refine (extend_map_received_eq_ok_iff hnodup hdone.2 hmem).trans ?_
      rw [hname]
      refine and_congr_left fun _ => ?_
      constructor
      · intro hseparate
        refine ⟨?_, by rwa [List.map_append]⟩
        intro other hother
        rcases List.mem_append.1 hother with hother | hother
        · exact hdone.1 other hother
        · rw [List.mem_singleton.1 hother]
          exact ⟨base, hmem, hname, hkind⟩
      · rintro ⟨-, hseparate⟩
        rwa [List.map_append] at hseparate

theorem foldlM_addPartial_eq_ok_iff
    {result : List Definition}
    (hnodup : (bases.map Definition.name).Nodup) :
    parts.foldlM addPartial bases = .ok result ↔
      PartsGood bases parts ∧ result = bases.map (received (parts.map partDelivery)) := by
  have hstart : bases = bases.map (received (([] : List Definition).map partDelivery)) :=
    map_received_nil.symm
  have hpass : parts.foldlM addPartial
      (bases.map (received (([] : List Definition).map partDelivery))) = .ok result ↔ _ :=
    foldlM_eq_ok_iff (fun done => bases.map (received (done.map partDelivery))) (PartsGood bases)
      PartsGood.left (addPartial_eq_ok_iff hnodup) ⟨by simp, separate_nil⟩
  rw [← hstart] at hpass
  exact hpass

end Parts

/-! ## The pass of inclusions -/

/-- Whether an inclusion makes the members of a mixin global members. -/
def isRouted (mixin target : Definition) : Bool :=
  mixin.name == globalMixin && target.isGlobalObject

/-- The interface and the mixin that an inclusion names. -/
def endsOf?
    (bases : List Definition)
    (inclusion : Definition) :
    Option (Definition × Definition) :=
  (definitionOf? bases inclusion.name .interface).bind fun target =>
    (definitionOf? bases (inclusion.included.getD "") .mixin).map fun mixin => (target, mixin)

/-- What an inclusion brings after the deliveries of the partial definitions. -/
def inclusionDelivery?
    (bases : List Definition)
    (parts : List Delivery)
    (inclusion : Definition) :
    Option Delivery :=
  (endsOf? bases inclusion).bind fun (target, mixin) =>
    if isRouted mixin target then none
    else some ⟨target.name, (received parts mixin).exposedMembers⟩

/-- The global members after an inclusion. -/
def globalsAfter
    (bases : List Definition)
    (parts : List Delivery)
    (globals : List GlobalMember)
    (inclusion : Definition) :
    List GlobalMember :=
  match endsOf? bases inclusion with
  | none => globals
  | some (target, mixin) =>
      if isRouted mixin target then addGlobals globals (received parts mixin) target.name
      else globals

/-- All deliveries up to some inclusions. -/
def deliveriesUpTo
    (bases : List Definition)
    (parts : List Delivery)
    (inclusions : List Definition) :
    List Delivery :=
  parts ++ inclusions.filterMap (inclusionDelivery? bases parts)

/-- What the definitions have become after some inclusions. -/
def mergedAfter
    (bases : List Definition)
    (parts : List Delivery)
    (inclusions : List Definition) :
    Merged where
  definitions := bases.map (received (deliveriesUpTo bases parts inclusions))
  globals := inclusions.foldl (globalsAfter bases parts) []

/-- The inclusions have an interface and a mixin, and their rows are separate. -/
def InclusionsGood
    (bases : List Definition)
    (parts : List Delivery)
    (inclusions : List Definition) : Prop :=
  (∀ inclusion ∈ inclusions,
      (∃ target ∈ bases, target.name = inclusion.name ∧ target.kind = .interface) ∧
      ∃ mixin ∈ bases, mixin.name = inclusion.included.getD "" ∧ mixin.kind = .mixin) ∧
    Separate bases (deliveriesUpTo bases parts inclusions)

section Inclusions

variable
  {bases done : List Definition} {parts : List Delivery} {inclusion target mixin : Definition}

theorem endsOf?_eq_some_iff
    (hnodup : (bases.map Definition.name).Nodup) :
    endsOf? bases inclusion = some (target, mixin) ↔
      (target ∈ bases ∧ target.name = inclusion.name ∧ target.kind = .interface) ∧
        mixin ∈ bases ∧ mixin.name = inclusion.included.getD "" ∧ mixin.kind = .mixin := by
  rw [← definitionOf?_eq_some_iff hnodup, ← definitionOf?_eq_some_iff hnodup, endsOf?]
  cases definitionOf? bases inclusion.name .interface with
  | none =>
      simp
  | some found =>
      cases definitionOf? bases (inclusion.included.getD "") .mixin with
      | none =>
          simp
      | some found' =>
          simp

theorem inclusionDelivery?_of_ends
    (h : endsOf? bases inclusion = some (target, mixin)) :
    inclusionDelivery? bases parts inclusion =
      if isRouted mixin target then none
      else some ⟨target.name, (received parts mixin).exposedMembers⟩ := by
  rw [inclusionDelivery?, h]
  rfl

theorem deliveriesUpTo_append_singleton :
    deliveriesUpTo bases parts (done ++ [inclusion]) =
      deliveriesUpTo bases parts done ++ (inclusionDelivery? bases parts inclusion).toList := by
  rw [deliveriesUpTo, deliveriesUpTo, List.filterMap_append, List.append_assoc]
  cases h : inclusionDelivery? bases parts inclusion with
  | none =>
      simp [h]
  | some delivery =>
      simp [h]

theorem InclusionsGood.left
    {first second : List Definition}
    (h : InclusionsGood bases parts (first ++ second)) :
    InclusionsGood bases parts first := by
  obtain ⟨hends, hseparate⟩ := h
  rw [deliveriesUpTo, List.filterMap_append, ← List.append_assoc] at hseparate
  exact ⟨fun inclusion hmem => hends inclusion (List.mem_append_left _ hmem), hseparate.left⟩

/-- Inclusions bring nothing to a mixin. -/
theorem received_deliveriesUpTo_mixin
    (hnodup : (bases.map Definition.name).Nodup)
    (hmixin : mixin ∈ bases)
    (hkind : mixin.kind = .mixin) :
    received (deliveriesUpTo bases parts done) mixin = received parts mixin := by
  have hrows : rowsFor (done.filterMap (inclusionDelivery? bases parts)) mixin.name = [] := by
    rw [rowsFor, List.map_eq_nil_iff, List.filter_eq_nil_iff]
    intro delivery hdelivery htarget
    obtain ⟨inclusion, -, hbrings⟩ := List.mem_filterMap.1 hdelivery
    cases hends : endsOf? bases inclusion with
    | none =>
        rw [inclusionDelivery?, hends] at hbrings
        cases hbrings
    | some ends =>
        obtain ⟨⟨hmem, -, hinterface⟩, -⟩ := (endsOf?_eq_some_iff hnodup).1 hends
        rw [inclusionDelivery?_of_ends hends] at hbrings
        split at hbrings
        · cases hbrings
        · cases hbrings
          have hsame := List.inj_on_of_nodup_map hnodup hmem hmixin (by simpa using htarget)
          rw [hsame, hkind] at hinterface
          cases hinterface
  rw [received, deliveriesUpTo, rowsFor_append, hrows, List.append_nil]
  rfl

theorem definitionOf?_mergedAfter
    (name : String)
    (kind : DefinitionKind) :
    ((mergedAfter bases parts done).find? name).filter (fun found => found.kind == kind) =
      (definitionOf? bases name kind).map (received (deliveriesUpTo bases parts done)) :=
  definitionOf?_map_received

theorem addInclusion_of_no_ends
    (h : endsOf? bases inclusion = none) :
    ∃ error, addInclusion (mergedAfter bases parts done) inclusion = .error error := by
  simp only [addInclusion, definitionOf?_mergedAfter]
  rw [endsOf?] at h
  cases htarget : definitionOf? bases inclusion.name .interface with
  | none =>
      exact ⟨_, rfl⟩
  | some target =>
      cases hmixin : definitionOf? bases (inclusion.included.getD "") .mixin with
      | none =>
          exact ⟨_, rfl⟩
      | some mixin =>
          rw [htarget, hmixin] at h
          cases h

/-- An inclusion with both ends notes global members, or it extends its interface. -/
theorem addInclusion_of_ends
    (hnodup : (bases.map Definition.name).Nodup)
    (h : endsOf? bases inclusion = some (target, mixin)) :
    addInclusion (mergedAfter bases parts done) inclusion =
      if isRouted mixin target then
        .ok ⟨(mergedAfter bases parts done).definitions,
          addGlobals (mergedAfter bases parts done).globals (received parts mixin) target.name⟩
      else
        (extend (mergedAfter bases parts done).definitions
            (received (deliveriesUpTo bases parts done) target)
            (received parts mixin).exposedMembers).map
          fun definitions => ⟨definitions, (mergedAfter bases parts done).globals⟩ := by
  obtain ⟨htarget, hmixin⟩ := (endsOf?_eq_some_iff hnodup).1 h
  have hstays : received (deliveriesUpTo bases parts done) mixin = received parts mixin :=
    received_deliveriesUpTo_mixin hnodup hmixin.1 hmixin.2.2
  simp only [addInclusion, definitionOf?_mergedAfter, (definitionOf?_eq_some_iff hnodup).2 htarget,
    (definitionOf?_eq_some_iff hnodup).2 hmixin, Option.map_some, hstays]
  rw [← hmixin.2.1]
  change (if isRouted mixin target then _ else _) = _
  refine if_congr Iff.rfl rfl ?_
  cases extend (mergedAfter bases parts done).definitions
      (received (deliveriesUpTo bases parts done) target)
      (received parts mixin).exposedMembers with
  | ok definitions =>
      rfl
  | error error =>
      rfl

theorem inclusionsGood_append_iff
    (hnodup : (bases.map Definition.name).Nodup)
    (hdone : InclusionsGood bases parts done)
    (h : endsOf? bases inclusion = some (target, mixin)) :
    InclusionsGood bases parts (done ++ [inclusion]) ↔
      Separate bases (deliveriesUpTo bases parts (done ++ [inclusion])) := by
  obtain ⟨htarget, hmixin⟩ := (endsOf?_eq_some_iff hnodup).1 h
  refine and_iff_right ?_
  intro other hother
  rcases List.mem_append.1 hother with hother | hother
  · exact hdone.1 other hother
  · rw [List.mem_singleton.1 hother]
    exact ⟨⟨target, htarget⟩, mixin, hmixin⟩

/-- A step of the last pass succeeds just if one more inclusion is good. -/
theorem addInclusion_eq_ok_iff
    {next : Merged}
    (hnodup : (bases.map Definition.name).Nodup)
    (hdone : InclusionsGood bases parts done) :
    addInclusion (mergedAfter bases parts done) inclusion = .ok next ↔
      InclusionsGood bases parts (done ++ [inclusion]) ∧
        next = mergedAfter bases parts (done ++ [inclusion]) := by
  cases hends : endsOf? bases inclusion with
  | none =>
      obtain ⟨error, herror⟩ : ∃ error,
          addInclusion (mergedAfter bases parts done) inclusion = .error error :=
        addInclusion_of_no_ends hends
      rw [herror]
      refine iff_of_false (by simp) ?_
      rintro ⟨⟨hall, -⟩, -⟩
      obtain ⟨⟨target, htarget⟩, mixin, hmixin⟩ := hall inclusion (by simp)
      rw [(endsOf?_eq_some_iff hnodup).2 ⟨htarget, hmixin⟩] at hends
      cases hends
  | some ends =>
      obtain ⟨target, mixin⟩ := ends
      have hglobals : (done ++ [inclusion]).foldl (globalsAfter bases parts) [] =
          if isRouted mixin target then
            addGlobals (done.foldl (globalsAfter bases parts) []) (received parts mixin) target.name
          else done.foldl (globalsAfter bases parts) [] := by
        rw [List.foldl_append, List.foldl_cons, List.foldl_nil, globalsAfter, hends]
      rw [addInclusion_of_ends hnodup hends, inclusionsGood_append_iff hnodup hdone hends,
        mergedAfter, mergedAfter, hglobals, deliveriesUpTo_append_singleton,
        inclusionDelivery?_of_ends hends]
      by_cases hrouted : isRouted mixin target
      · simp only [if_pos hrouted, Option.toList_none, List.append_nil]
        constructor
        · intro h
          cases h
          exact ⟨hdone.2, rfl⟩
        · rintro ⟨-, rfl⟩
          rfl
      · simp only [if_neg hrouted, Option.toList_some]
        have htarget := ((endsOf?_eq_some_iff hnodup).1 hends).1.1
        cases hextend : extend (bases.map (received (deliveriesUpTo bases parts done)))
            (received (deliveriesUpTo bases parts done) target)
            (received parts mixin).exposedMembers with
        | error error =>
            refine iff_of_false (by simp [Except.map]) ?_
            rintro ⟨hseparate, -⟩
            have hok := (extend_map_received_eq_ok_iff hnodup hdone.2 htarget).2 ⟨hseparate, rfl⟩
            rw [hextend] at hok
            cases hok
        | ok definitions =>
            obtain ⟨hseparate, rfl⟩ :=
              (extend_map_received_eq_ok_iff hnodup hdone.2 htarget).1 hextend
            constructor
            · intro h
              cases h
              exact ⟨hseparate, rfl⟩
            · rintro ⟨-, rfl⟩
              rfl

theorem foldlM_addInclusion_eq_ok_iff
    {inclusions : List Definition} {result : Merged}
    (hnodup : (bases.map Definition.name).Nodup)
    (hparts : Separate bases parts) :
    inclusions.foldlM addInclusion ⟨bases.map (received parts), []⟩ = .ok result ↔
      InclusionsGood bases parts inclusions ∧ result = mergedAfter bases parts inclusions := by
  have hstart : deliveriesUpTo bases parts [] = parts := by
    rw [deliveriesUpTo, List.filterMap_nil, List.append_nil]
  have hpass : inclusions.foldlM addInclusion (mergedAfter bases parts []) = .ok result ↔ _ :=
    foldlM_eq_ok_iff (mergedAfter bases parts) (InclusionsGood bases parts) InclusionsGood.left
      (addInclusion_eq_ok_iff hnodup) ⟨by simp, by rwa [hstart]⟩
  rw [mergedAfter, hstart] at hpass
  exact hpass

end Inclusions

end WebIdl
end FeatureProbes
