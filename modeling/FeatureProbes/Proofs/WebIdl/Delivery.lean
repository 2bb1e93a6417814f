import FeatureProbes.WebIdl.Merge
import Mathlib.Data.List.Nodup
import Mathlib.Data.List.Pairwise

/-!
# Deliveries of members

Partial definitions and inclusions both bring a row of members to the definition of a name.  What a
list of definitions has become after some of them is determined by these deliveries alone: every
definition has the members it began with, and behind them the rows that were brought to its name,
in their order.

One more row is accepted just if no two rows of the same definition have a name in common.  Rows
are compared as wholes, so a row may repeat a name of its own.
-/

namespace FeatureProbes
namespace WebIdl

/-! ## Names in common -/

/-- Two rows of members have a name in common. -/
def SharesName (first second : List Member) : Prop :=
  ∃ name,
    (∃ member ∈ first, member.name = some name) ∧
    ∃ member ∈ second, member.name = some name

theorem sharesName_comm
    {first second : List Member} :
    SharesName first second ↔ SharesName second first := by
  constructor
  · rintro ⟨name, hfirst, hsecond⟩
    exact ⟨name, hsecond, hfirst⟩
  · rintro ⟨name, hsecond, hfirst⟩
    exact ⟨name, hfirst, hsecond⟩

theorem sharesName_append_left
    {first second third : List Member} :
    SharesName (first ++ second) third ↔ SharesName first third ∨ SharesName second third := by
  constructor
  · rintro ⟨name, ⟨member, hmember, hname⟩, hthird⟩
    rcases List.mem_append.1 hmember with hmember | hmember
    · exact Or.inl ⟨name, ⟨member, hmember, hname⟩, hthird⟩
    · exact Or.inr ⟨name, ⟨member, hmember, hname⟩, hthird⟩
  · rintro (⟨name, ⟨member, hmember, hname⟩, hthird⟩ | ⟨name, ⟨member, hmember, hname⟩, hthird⟩)
    · exact ⟨name, ⟨member, List.mem_append_left _ hmember, hname⟩, hthird⟩
    · exact ⟨name, ⟨member, List.mem_append_right _ hmember, hname⟩, hthird⟩

/-- Rows have a name in common with a further row if one of them does. -/
theorem sharesName_flatten_left
    {rows : List (List Member)} {last : List Member} :
    SharesName rows.flatten last ↔ ∃ row ∈ rows, SharesName row last := by
  induction rows with
  | nil =>
      simp [SharesName]
  | cons row rows ih =>
      rw [List.flatten_cons, sharesName_append_left, ih]
      simp

theorem sharedName?_eq_none_iff
    {existing incoming : List Member} :
    sharedName? existing incoming = none ↔ ¬SharesName existing incoming := by
  rw [sharedName?, List.find?_eq_none]
  constructor
  · rintro h ⟨name, ⟨member, hmember, hname⟩, other, hother, hsame⟩
    refine h name (List.mem_filterMap.2 ⟨other, hother, hsame⟩) ?_
    exact List.any_eq_true.2 ⟨member, hmember, by simp [hname]⟩
  · intro h name hname hany
    obtain ⟨other, hother, hsame⟩ := List.mem_filterMap.1 hname
    obtain ⟨member, hmember, heq⟩ := List.any_eq_true.1 hany
    exact h ⟨name, ⟨member, hmember, by simpa using heq⟩, other, hother, hsame⟩

/-! ## Finding definitions -/

section Find

variable {definitions : List Definition} {definition : Definition} {name : String}

theorem findDefinition_eq_some_iff
    (hnodup : (definitions.map Definition.name).Nodup) :
    findDefinition definitions name = some definition ↔
      definition ∈ definitions ∧ definition.name = name := by
  rw [findDefinition]
  constructor
  · intro h
    exact ⟨List.mem_of_find?_eq_some h, by simpa using List.find?_some h⟩
  · rintro ⟨hmem, rfl⟩
    cases hfind : definitions.find? fun other => other.name == definition.name with
    | none =>
        exact absurd (beq_self_eq_true definition.name) (List.find?_eq_none.1 hfind _ hmem)
    | some other =>
        have hname : other.name = definition.name := by
          simpa using List.find?_some hfind
        have hother := List.mem_of_find?_eq_some hfind
        rw [List.inj_on_of_nodup_map hnodup hother hmem hname]

/-- The definition of this name and kind. -/
def definitionOf?
    (definitions : List Definition)
    (name : String)
    (kind : DefinitionKind) :
    Option Definition :=
  (findDefinition definitions name).filter fun definition => definition.kind == kind

theorem definitionOf?_eq_some_iff
    {kind : DefinitionKind}
    (hnodup : (definitions.map Definition.name).Nodup) :
    definitionOf? definitions name kind = some definition ↔
      definition ∈ definitions ∧ definition.name = name ∧ definition.kind = kind := by
  rw [definitionOf?, Option.filter_eq_some_iff, findDefinition_eq_some_iff hnodup, beq_iff_eq,
    and_assoc]

end Find

/-! ## Deliveries -/

/-- A row of members for the definition of a name. -/
structure Delivery where
  target : String
  members : List Member

/-- The rows that are brought to a name. -/
def rowsFor
    (deliveries : List Delivery)
    (name : String) :
    List (List Member) :=
  (deliveries.filter fun delivery => delivery.target == name).map Delivery.members

/-- What a definition becomes after some deliveries. -/
def received
    (deliveries : List Delivery)
    (base : Definition) :
    Definition :=
  { base with members := base.members ++ (rowsFor deliveries base.name).flatten }

/-- Any two rows of one definition have different names. -/
def Separate
    (bases : List Definition)
    (deliveries : List Delivery) : Prop :=
  ∀ base ∈ bases,
    (base.members :: rowsFor deliveries base.name).Pairwise fun first second =>
      ¬SharesName first second

section Deliveries

variable {bases : List Definition} {base : Definition} {done more : List Delivery} {name : String}

theorem rowsFor_append :
    rowsFor (done ++ more) name = rowsFor done name ++ rowsFor more name := by
  rw [rowsFor, List.filter_append, List.map_append]
  rfl

theorem rowsFor_singleton
    (target : String)
    (members : List Member) :
    rowsFor [⟨target, members⟩] name = if target = name then [members] else [] := by
  by_cases h : target = name
  · simp [rowsFor, h]
  · simp [rowsFor, h]

theorem received_nil :
    received [] = id := by
  funext base
  simp [received, rowsFor]

theorem map_received_nil :
    bases.map (received []) = bases := by
  rw [received_nil, List.map_id]

/-- Adding members to the definitions of a name is one more delivery. -/
theorem addMembers_map_received
    (members : List Member) :
    addMembers (bases.map (received done)) name members =
      bases.map (received (done ++ [⟨name, members⟩])) := by
  rw [addMembers, List.map_map]
  refine List.map_congr_left ?_
  intro base _
  by_cases h : base.name = name
  · subst h
    simp [received, rowsFor_append, rowsFor_singleton]
  · simp [received, rowsFor_append, rowsFor_singleton, h, Ne.symm h]

theorem findDefinition_map_received :
    findDefinition (bases.map (received done)) name =
      (findDefinition bases name).map (received done) := by
  rw [findDefinition, List.find?_map]
  rfl

theorem definitionOf?_map_received
    {kind : DefinitionKind} :
    definitionOf? (bases.map (received done)) name kind =
      (definitionOf? bases name kind).map (received done) := by
  rw [definitionOf?, findDefinition_map_received, Option.filter_map]
  rfl

theorem separate_nil :
    Separate bases [] := by
  intro base _
  exact List.pairwise_singleton _ _

theorem Separate.left
    (h : Separate bases (done ++ more)) :
    Separate bases done := by
  intro base hbase
  have hrows := h base hbase
  rw [rowsFor_append, ← List.cons_append] at hrows
  exact (List.pairwise_append.1 hrows).1

/-- One more delivery keeps rows separate if it has no name in common with what was received at
its target. -/
theorem separate_append_singleton_iff
    {delivery : Delivery} :
    Separate bases (done ++ [delivery]) ↔
      Separate bases done ∧
        ∀ base ∈ bases, base.name = delivery.target →
          ¬SharesName (received done base).members delivery.members := by
  have hrows : ∀ base : Definition, (received done base).members =
      (base.members :: rowsFor done base.name).flatten := fun base => rfl
  constructor
  · intro h
    refine ⟨h.left, ?_⟩
    intro base hbase hname hshares
    have hpairs := h base hbase
    rw [rowsFor_append, rowsFor_singleton, if_pos hname.symm, ← List.cons_append,
      List.pairwise_append] at hpairs
    rw [hrows, sharesName_flatten_left] at hshares
    obtain ⟨row, hrow, hshares⟩ := hshares
    exact hpairs.2.2 row hrow delivery.members (List.mem_singleton.2 rfl) hshares
  · rintro ⟨hdone, hnew⟩ base hbase
    rw [rowsFor_append, rowsFor_singleton, ← List.cons_append, List.pairwise_append]
    refine ⟨hdone base hbase, ?_, ?_⟩
    · split
      · exact List.pairwise_singleton _ _
      · exact List.Pairwise.nil
    · intro row hrow last hlast hshares
      split at hlast
      · rename_i htarget
        rw [List.mem_singleton.1 hlast] at hshares
        refine hnew base hbase htarget.symm ?_
        rw [hrows, sharesName_flatten_left]
        exact ⟨row, hrow, hshares⟩
      · exact absurd hlast List.not_mem_nil

/-- Extending a definition is one more delivery to its name, which is accepted if the rows of all
definitions are separate still. -/
theorem extend_map_received_eq_ok_iff
    {members : List Member} {next : List Definition}
    (hnodup : (bases.map Definition.name).Nodup)
    (hdone : Separate bases done)
    (hbase : base ∈ bases) :
    extend (bases.map (received done)) (received done base) members = .ok next ↔
      Separate bases (done ++ [⟨base.name, members⟩]) ∧
        next = bases.map (received (done ++ [⟨base.name, members⟩])) := by
  have hseparate : Separate bases (done ++ [⟨base.name, members⟩]) ↔
      sharedName? (received done base).members members = none := by
    rw [separate_append_singleton_iff, sharedName?_eq_none_iff]
    constructor
    · rintro ⟨-, hnew⟩
      exact hnew base hbase rfl
    · intro hnone
      refine ⟨hdone, ?_⟩
      intro other hother hname
      rw [List.inj_on_of_nodup_map hnodup hother hbase hname]
      exact hnone
  rw [hseparate, extend]
  cases sharedName? (received done base).members members with
  | none =>
      have hadd : addMembers (bases.map (received done)) (received done base).name members = _ :=
        addMembers_map_received members
      constructor
      · intro h
        cases h
        exact ⟨rfl, hadd⟩
      · rintro ⟨-, rfl⟩
        exact congrArg Except.ok hadd
  | some name =>
      simp

end Deliveries

end WebIdl
end FeatureProbes
