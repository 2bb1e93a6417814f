import FeatureProbes.Proofs.Build.Entries
import FeatureProbes.Proofs.Catalog.Needed

/-!
# Resources of tests

Every resource that a test comes with is one of the catalog's table.  The tests of members and those
that authors wrote come with the resources of their interface and of their own node.  Only what is
made for a constructor comes with nothing.
-/

namespace FeatureProbes
namespace Build

open Catalog (Override interfacePath memberPath)
open Probe (CompiledTest Table TestCode)
open Reporting (Gives Yields)
open WebIdl (Definition GlobalMember Merged)

section Resources

variable
  {catalog : Catalog} {valid : NameSet} {merged : Merged} {definition : Definition}

theorem carries_entry_iff
    {path name : String} {code : TestCode} {custom : Override} {scopes : List String}
    {resource : Catalog.Resource} :
    (entry path code custom scopes).2.Carries name resource ↔
      custom.resources.get? name = some resource := by
  change (∃ resources,
    (if custom.resources.isEmpty then none else some custom.resources) = some resources ∧
      resources.get? name = some resource) ↔ _
  by_cases hempty : custom.resources.isEmpty
  · rw [if_pos hempty]
    have hnone : custom.resources.get? name = none := by
      rw [SortedMap.get?, List.isEmpty_iff.1 hempty]
      rfl
    simp [hnone]
  · simp [hempty]

/-- A test comes with resources of the catalog only, among them those with some names. -/
structure IsSupplied
    (catalog : Catalog)
    (names : List String)
    (test : CompiledTest) : Prop where
  sound : ∀ name resource, test.Carries name resource → catalog.resource? name = some resource
  complete : ∀ name ∈ names, ∃ resource, test.Carries name resource

theorem isSupplied_entry
    {names : List String} {custom : Override}
    (h : catalog.Supplies names custom.resources)
    (path : String)
    (code : TestCode)
    (scopes : List String) :
    IsSupplied catalog names (entry path code custom scopes).2 := by
  constructor
  · intro name resource hcarries
    exact h.sound name resource (carries_entry_iff.1 hcarries)
  · intro name hname
    obtain ⟨resource, hget⟩ :=
      Option.isSome_iff_exists.1 (SortedMap.mem_keys_iff.1 (h.complete name hname))
    exact ⟨resource, carries_entry_iff.2 hget⟩

theorem IsSupplied.of_nil
    {names : List String} {test : CompiledTest}
    (h : IsSupplied catalog names test) :
    IsSupplied catalog [] test := by
  refine ⟨h.sound, ?_⟩
  intro name hname
  cases hname

/-- The test of a member comes with what the interface and the member's node need. -/
theorem isSupplied_of_madeFor
    {probe : ProbeMember} {test : String × CompiledTest}
    (hkind : probe.kind ≠ .constructor)
    (h : MadeFor catalog definition probe test) :
    IsSupplied catalog
      (Catalog.namesOf (catalog.node? (interfacePath definition.name)) ++
        Catalog.namesOf (catalog.memberNode? definition.name probe.name))
      test.2 := by
  obtain ⟨custom, scopes, hcustom, rfl⟩ := h
  exact isSupplied_entry (Catalog.supplies_of_yields_memberTest hkind hcustom) _ _ _

/-- What is made for a constructor comes with nothing. -/
theorem resources_of_madeFor_constructor
    {probe : ProbeMember} {test : String × CompiledTest}
    (hkind : probe.kind = .constructor)
    (h : MadeFor catalog definition probe test) :
    test.2.resources = none := by
  obtain ⟨custom, scopes, hcustom, rfl⟩ := h
  rw [hkind] at hcustom
  rw [Catalog.eq_none_of_yields_memberTest hcustom]
  rfl

theorem isSupplied_of_yields_subtestEntries
    {exposure : NameSet} {tests : List (String × CompiledTest)}
    (h : Yields (subtestEntries catalog definition exposure) tests) :
    ∀ test ∈ tests, ∃ node, catalog.node? (interfacePath definition.name) = some node ∧
      ∃ item ∈ Catalog.subtestsOf (.ofNames ((probesOf definition).map ProbeMember.name)) node,
        test.1 = memberPath definition.name item.path ∧
        IsSupplied catalog (node.resources ++ item.owner.resources) test.2 := by
  obtain ⟨subtests, hsubtests, rfl⟩ := exists_of_yields_subtestEntries h
  intro test htest
  obtain ⟨item, hitem, hmade⟩ := List.mem_filterMap.1 htest
  obtain ⟨code, -, rfl⟩ := Option.map_eq_some_iff.1 hmade
  obtain ⟨node, hnode, subtest, hsubtest, hpath, hsupplies⟩ :=
    Catalog.supplies_of_yields_subtests hsubtests item hitem
  refine ⟨node, hnode, subtest, hsubtest, ?_, isSupplied_entry hsupplies _ _ _⟩
  rw [hpath]
  rfl

/-- All tests of a definition come with resources of the catalog only. -/
theorem isSupplied_of_yields_definitionEntries
    {tests : List (String × CompiledTest)}
    (h : Yields (definitionEntries catalog valid definition) tests) :
    ∀ test ∈ tests, IsSupplied catalog [] test.2 := by
  obtain ⟨exposure, custom, members, subtests, hcustom, hmembers, hsubtests, rfl⟩ :=
    exists_of_yields_definitionEntries h
  intro test htest
  rcases List.mem_cons.1 htest with rfl | htest
  · exact (isSupplied_entry (Catalog.supplies_of_yields_interfaceTest hcustom) _ _ _).of_nil
  · rcases List.mem_append.1 htest with htest | htest
    · obtain ⟨probe, -, hmade⟩ := (Reporting.exists_of_forall₂ hmembers).1 test htest
      by_cases hkind : probe.kind = .constructor
      · constructor
        · rintro name resource ⟨resources, hresources, -⟩
          rw [resources_of_madeFor_constructor hkind hmade] at hresources
          cases hresources
        · intro name hname
          cases hname
      · exact (isSupplied_of_madeFor hkind hmade).of_nil
    · obtain ⟨_, -, _, -, -, hsupplied⟩ :=
        isSupplied_of_yields_subtestEntries hsubtests test htest
      exact hsupplied.of_nil

theorem isSupplied_of_yields_globalEntry
    {item : GlobalMember} {tests : List (String × CompiledTest)}
    (h : Yields (globalEntry catalog valid merged item) tests) :
    ∀ test ∈ tests, IsSupplied catalog [] test.2 := by
  intro test htest
  obtain ⟨name, custom, narrowed, hcustom, rfl⟩ := exists_of_yields_globalEntry h test htest
  exact (isSupplied_entry (Catalog.supplies_of_yields_interfaceTest hcustom) _ _ _).of_nil

/-- A table has a test at a path that comes with the resources which a catalog has under some
names. -/
def Supplied
    (catalog : Catalog)
    (table : Table)
    (path : String)
    (names : List String) : Prop :=
  ∃ test, table.get? path = some test ∧
    ∀ name ∈ names, ∃ resource,
      catalog.resource? name = some resource ∧ test.Carries name resource

section Tests

variable {tests : List (String × CompiledTest)}

/-- What the table carries at a path comes from a test with this path. -/
theorem exists_mem_of_carries
    {path name : String} {test : CompiledTest} {resource : Catalog.Resource}
    (htest : (Table.ofTests tests).get? path = some test)
    (hcarries : test.Carries name resource) :
    ∃ source ∈ tests, source.1 = path ∧ source.2.Carries name resource := by
  have hholds : Table.HoldsAt (fun test => test.Carries name resource) (.ofTests tests) path :=
    ⟨test, htest, hcarries⟩
  exact Table.exists_mem_of_holdsAt (fun _ _ => CompiledTest.carries_or_of_merge) hholds

/-- The table has something under the name of each resource that one of its tests carries. -/
theorem exists_carries_of_mem
    {source : String × CompiledTest} {test : CompiledTest} {name : String}
    (hsource : source ∈ tests)
    (hcarries : ∃ resource, source.2.Carries name resource)
    (htest : (Table.ofTests tests).get? source.1 = some test) :
    ∃ resource, test.Carries name resource := by
  have hholds : Table.HoldsAt (fun test => ∃ resource, test.Carries name resource)
      (.ofTests tests) source.1 :=
    Table.holdsAt_of_mem (fun _ _ => CompiledTest.exists_carries_merge) hsource hcarries
  obtain ⟨found, hfound, hresource⟩ := hholds
  cases htest.symm.trans hfound
  exact hresource

theorem resource?_of_carries
    {path name : String} {test : CompiledTest} {resource : Catalog.Resource}
    (hall : ∀ test ∈ tests, IsSupplied catalog [] test.2)
    (htest : (Table.ofTests tests).get? path = some test)
    (hcarries : test.Carries name resource) :
    catalog.resource? name = some resource := by
  obtain ⟨source, hsource, -, hthis⟩ := exists_mem_of_carries htest hcarries
  exact (hall source hsource).sound name resource hthis

/-- What one test at a path comes with is there under the same names in the table, with the
definitions of the catalog. -/
theorem supplied_of_mem
    {names : List String} {test : String × CompiledTest}
    (hall : ∀ test ∈ tests, IsSupplied catalog [] test.2)
    (hmem : test ∈ tests)
    (h : IsSupplied catalog names test.2) :
    Supplied catalog (.ofTests tests) test.1 names := by
  obtain ⟨merged, hmerged⟩ := Option.isSome_iff_exists.1
    (SortedMap.mem_keys_iff.1 (Table.mem_keys_ofTests_iff.2 (List.mem_map_of_mem hmem)))
  refine ⟨merged, hmerged, ?_⟩
  intro name hname
  obtain ⟨resource, hcarries⟩ := exists_carries_of_mem hmem (h.complete name hname) hmerged
  exact ⟨resource, resource?_of_carries hall hmerged hcarries, hcarries⟩

end Tests

theorem exists_subtestEntry_of_authored
    {exposure : NameSet} {tests : List (String × CompiledTest)} {below : String}
    (h : Yields (subtestEntries catalog definition exposure) tests)
    (hauthored : Authored catalog definition below) :
    ∃ test ∈ tests, test.1 = memberPath definition.name below := by
  obtain ⟨subtests, hsubtests, rfl⟩ := exists_of_yields_subtestEntries h
  obtain ⟨hcode, hpaths⟩ := Catalog.mem_subtests_iff hsubtests
  obtain ⟨item, hitem, rfl⟩ := List.mem_map.1 ((hpaths below).2 hauthored)
  obtain ⟨code, htest⟩ := Option.isSome_iff_exists.1 (hcode item hitem)
  exact ⟨_, List.mem_filterMap.2 ⟨item, hitem, Option.map_eq_some_iff.2 ⟨code, htest, rfl⟩⟩, rfl⟩

/-- Tests come with resources of the catalog only.  Below a definition the test of every member that
is no constructor comes with all that the nodes of the definition and of the member name, and the
test of an author with all that the nodes of the definition and of the test name. -/
theorem apiTests_resources
    {before after : Diagnostics} {table : Table}
    (h : Gives (apiTests merged valid catalog) before table after) :
    (∀ path test name resource, table.get? path = some test → test.Carries name resource →
      catalog.resource? name = some resource) ∧
    ∀ definition ∈ merged.definitions, isTested definition →
      ∀ node, catalog.node? (interfacePath definition.name) = some node →
        (∀ probe ∈ probesOf definition, probe.kind ≠ .constructor →
          Supplied catalog table (memberPath definition.name probe.name)
            (node.resources ++ Catalog.namesOf (node.child? probe.name))) ∧
        ∀ below, Authored catalog definition below →
          ∃ item ∈ Catalog.subtestsOf (.ofNames ((probesOf definition).map ProbeMember.name)) node,
            item.path = below ∧
            Supplied catalog table (memberPath definition.name below)
              (node.resources ++ item.owner.resources) := by
  obtain ⟨definitions, globals, hdefinitions, hglobals, rfl⟩ := exists_of_gives_apiTests h
  have hall : ∀ test ∈ definitions.flatten ++ globals.flatten, IsSupplied catalog [] test.2 := by
    intro test htest
    rcases List.mem_append.1 htest with htest | htest
    · obtain ⟨tests, htests, htest⟩ := List.mem_flatten.1 htest
      obtain ⟨definition, -, hyields⟩ := (Reporting.exists_of_forall₂ hdefinitions).1 tests htests
      exact isSupplied_of_yields_definitionEntries hyields test htest
    · obtain ⟨tests, htests, htest⟩ := List.mem_flatten.1 htest
      obtain ⟨item, -, hyields⟩ := (Reporting.exists_of_forall₂ hglobals).1 tests htests
      exact isSupplied_of_yields_globalEntry hyields test htest
  constructor
  · intro path test name resource htest hcarries
    exact resource?_of_carries hall htest hcarries
  · intro definition hmem htested node hnode
    obtain ⟨tests, htests, hyields⟩ := (Reporting.exists_of_forall₂ hdefinitions).2 definition
      (List.mem_filter.2 ⟨hmem, htested⟩)
    have hintable : ∀ test ∈ tests, test ∈ definitions.flatten ++ globals.flatten :=
      fun test htest => List.mem_append_left _ (List.mem_flatten.2 ⟨tests, htests, htest⟩)
    obtain ⟨exposure, custom, members, subtests, -, hmembers, hsubtests, rfl⟩ :=
      exists_of_yields_definitionEntries hyields
    constructor
    · intro probe hprobe hkind
      obtain ⟨test, htest, hmade⟩ := (Reporting.exists_of_forall₂ hmembers).2 probe hprobe
      have hsupplied := isSupplied_of_madeFor hkind hmade
      rw [Catalog.memberNode?, hnode, Option.bind_some] at hsupplied
      have hpath : test.1 = memberPath definition.name probe.name := by
        obtain ⟨custom, scopes, -, rfl⟩ := hmade
        rfl
      exact hpath ▸ supplied_of_mem hall
        (hintable test (List.mem_cons_of_mem _ (List.mem_append_left _ htest))) hsupplied
    · intro below hauthored
      obtain ⟨test, htest, hpath⟩ := exists_subtestEntry_of_authored hsubtests hauthored
      obtain ⟨node', hnode', item, hitem, hpath', hsupplied⟩ :=
        isSupplied_of_yields_subtestEntries hsubtests test htest
      cases hnode.symm.trans hnode'
      have hbelow : item.path = below := by
        rw [hpath, memberPath, memberPath, String.append_right_inj] at hpath'
        exact hpath'.symm
      refine ⟨item, hitem, hbelow, ?_⟩
      exact hpath ▸ supplied_of_mem hall
        (hintable test (List.mem_cons_of_mem _ (List.mem_append_right _ htest))) hsupplied

end Resources

end Build
end FeatureProbes
