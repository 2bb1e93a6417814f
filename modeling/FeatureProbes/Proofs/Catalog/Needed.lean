import FeatureProbes.Proofs.Catalog.Calls

/-!
# Resources that tests need

The resources that a catalog gives for a test are from its table.  They are those that the interface
names and those that the node of the test names.  For a constructor it gives nothing.
-/

namespace FeatureProbes
namespace Catalog

open Reporting (Yields)

/-- Resources are from the table of a catalog, and they are those with some names. -/
structure Supplies
    (catalog : Catalog)
    (names : List String)
    (resources : Resources) : Prop where
  sound : ∀ name resource,
    resources.get? name = some resource → catalog.resource? name = some resource
  complete : ∀ name ∈ names, name ∈ resources.keys
  bounded : ∀ name ∈ resources.keys, name ∈ names

/-- The names of the resources of a node, if there is one. -/
def namesOf (node : Option Node) : List String :=
  match node with
  | some node => node.resources
  | none => []

section Supplies

variable {catalog : Catalog} {interface : String}

theorem supplies_empty :
    catalog.Supplies [] .empty := by
  refine ⟨?_, ?_, ?_⟩
  · intro name resource hget
    cases hget
  · intro name hname
    cases hname
  · intro name hname
    cases hname

theorem Supplies.union
    {names names' : List String} {first second : Resources}
    (h : catalog.Supplies names first)
    (h' : catalog.Supplies names' second) :
    catalog.Supplies (names ++ names') (first.union second) := by
  refine ⟨?_, ?_, ?_⟩
  · intro name resource hget
    rcases SortedMap.get?_union_eq_some hget with hget | hget
    · exact h.sound name resource hget
    · exact h'.sound name resource hget
  · intro name hname
    rw [SortedMap.mem_keys_union_iff]
    exact (List.mem_append.1 hname).imp (h.complete name) (h'.complete name)
  · intro name hname
    rw [List.mem_append]
    exact (SortedMap.mem_keys_union_iff.1 hname).imp (h.bounded name) (h'.bounded name)

theorem supplies_of_findResources
    {path : String} {names : List String} {resources : Resources}
    (h : catalog.findResources path names = .ok resources) :
    catalog.Supplies names resources := by
  simp only [findResources, bind, Except.bind] at h
  split at h
  · cases h
  · rename_i entries hentries
    cases h
    -- Each entry is the resource of one of the names.
    have hmade : List.Forall₂
        (fun name entry => entry.1 = name ∧ catalog.resource? name = some entry.2)
        names entries := by
      refine (Reporting.mapM_eq_ok_iff.1 hentries).imp fun name entry hentry => ?_
      cases hfound : catalog.resource? name with
      | none =>
          rw [hfound] at hentry
          cases hentry
      | some resource =>
          rw [hfound] at hentry
          cases hentry
          exact ⟨rfl, rfl⟩
    obtain ⟨hvalues, hitems⟩ := Reporting.exists_of_forall₂ hmade
    refine ⟨?_, ?_, ?_⟩
    · intro name resource hget
      obtain ⟨_, -, rfl, hfound⟩ := hvalues _
        (SortedMap.mem_of_mem_entries_ofList (SortedMap.get?_eq_some_iff.1 hget))
      exact hfound
    · intro name hname
      obtain ⟨entry, hentry, rfl, -⟩ := hitems name hname
      exact SortedMap.mem_keys_ofList_iff.2 (List.mem_map_of_mem hentry)
    · intro name hname
      obtain ⟨entry, hentry, rfl⟩ := List.mem_map.1 (SortedMap.mem_keys_ofList_iff.1 hname)
      obtain ⟨name, hname, rfl, -⟩ := hvalues entry hentry
      exact hname

theorem supplies_of_yields_interfaceTest
    {result : Override}
    (h : Yields (catalog.interfaceTest interface) result) :
    catalog.Supplies (namesOf (catalog.node? (interfacePath interface))) result.resources := by
  cases interfaceTested_of_yields h with
  | silent hnode =>
      rw [hnode]
      exact supplies_empty
  | resolved hnode hresources =>
      rw [hnode]
      exact supplies_of_findResources hresources

theorem supplies_of_ownResources
    {path : String} {child : Option Node} {resources : Resources}
    (h : catalog.ownResources path child = .ok resources) :
    catalog.Supplies (namesOf child) resources := by
  cases child with
  | none =>
      cases h
      exact supplies_empty
  | some child =>
      exact supplies_of_findResources h

/-- What a member needs is what its interface and its own node need. -/
theorem supplies_of_yields_memberTest
    {member : String} {kind : ProbeKind} {result : Override}
    (hkind : kind ≠ .constructor)
    (h : Yields (catalog.memberTest interface member kind) result) :
    catalog.Supplies
      (namesOf (catalog.node? (interfacePath interface)) ++
        namesOf (catalog.memberNode? interface member))
      result.resources := by
  cases memberTested_of_yields h with
  | silent hnode =>
      rw [memberNode?, hnode]
      exact supplies_empty
  | constructor hconstructor =>
      exact absurd hconstructor hkind
  | resolved _ hnode hshared hown =>
      rw [memberNode?, hnode]
      exact (supplies_of_findResources hshared).union (supplies_of_ownResources hown)

/-- Constructors need nothing, whatever the catalog has for them. -/
theorem eq_none_of_yields_memberTest
    {member : String} {result : Override}
    (h : Yields (catalog.memberTest interface member .constructor) result) :
    result = .none := by
  cases memberTested_of_yields h with
  | silent => rfl
  | constructor => rfl
  | resolved hkind => exact absurd rfl hkind

/-- What a test needs that an author wrote is what its interface and the node that owns it need. -/
theorem supplies_of_yields_subtests
    {known : NameSet} {results : SortedMap Override}
    (h : Yields (catalog.subtests interface known) results) :
    ∀ entry ∈ results.entries, ∃ node, catalog.node? (interfacePath interface) = some node ∧
      ∃ item ∈ subtestsOf known node, item.path = entry.1 ∧
        catalog.Supplies (node.resources ++ item.owner.resources) entry.2.resources := by
  cases subtestsTested_of_yields h with
  | silent hnode =>
      intro entry hentry
      cases hentry
  | @resolved node shared base entries hnode hshared hbase hentries =>
      intro entry hentry
      obtain ⟨item, hitem, hyields⟩ :=
        (Reporting.exists_of_forall₂ hentries).1 entry (SortedMap.mem_of_mem_entries_ofList hentry)
      obtain ⟨own, code, test, hown, -, -, rfl⟩ := exists_of_yields_subtest hyields
      exact ⟨node, hnode, item, hitem, rfl,
        (supplies_of_findResources hshared).union (supplies_of_findResources hown)⟩

end Supplies

end Catalog
end FeatureProbes
