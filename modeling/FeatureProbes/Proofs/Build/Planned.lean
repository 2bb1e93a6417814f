import FeatureProbes.Build.Api
import FeatureProbes.Proofs.Catalog.Calls
import FeatureProbes.Proofs.Probe.Table
import FeatureProbes.Proofs.Reporting
import FeatureProbes.Proofs.WebIdl.Restriction

/-!
# Planned tests

Each test that is made for merged definitions has a path and runs in a known set of scopes: the test
of a definition where the definition is exposed, the test of a member where in addition the member's
restriction permits it, a test of an author where its definition is exposed, and the test of a
global member where one of its global objects is exposed and its restriction permits it.

Tests with the same path become one test, which runs in the scopes of all of them.
-/

namespace FeatureProbes
namespace Build

open Catalog (Override)
open Probe (CompiledTest Table TestCode)
open Reporting (Gives Yields)
open WebIdl (Definition ExtendedAttribute GlobalMember Merged findAttribute)

/-- The restriction among some extended attributes, if there is one, names a scope. -/
def PermittedIn
    (valid : NameSet)
    (attributes : List ExtendedAttribute)
    (scope : String) : Prop :=
  ∀ item, findAttribute attributes "Exposed" = some item → item.Names valid scope

/-- An author wrote a test at a path below a definition. -/
def Authored
    (catalog : Catalog)
    (definition : Definition)
    (path : String) : Prop :=
  ∃ node, catalog.node? (Catalog.interfacePath definition.name) = some node ∧
    ∃ subtest ∈
        Catalog.subtestsOf (.ofNames ((probesOf definition).map ProbeMember.name)) node,
      subtest.path = path

/-! ## Planned tests -/

/-- The tests that are made for merged definitions: their paths and the scopes they are run in. -/
inductive Planned
    (merged : Merged)
    (valid : NameSet)
    (catalog : Catalog) :
    String → (String → Prop) → Prop where
  | definition {definition : Definition}
      (hmem : definition ∈ merged.definitions)
      (htested : isTested definition) :
      Planned merged valid catalog ("api." ++ definition.name) (definition.ExposedIn valid)
  | probe {definition : Definition} {probe : ProbeMember}
      (hmem : definition ∈ merged.definitions)
      (htested : isTested definition)
      (hprobe : probe ∈ probesOf definition) :
      Planned merged valid catalog ("api." ++ definition.name ++ "." ++ probe.name)
        fun scope => definition.ExposedIn valid scope ∧ PermittedIn valid probe.attributes scope
  | authored {definition : Definition} {below : String}
      (hmem : definition ∈ merged.definitions)
      (htested : isTested definition)
      (hauthored : Authored catalog definition below) :
      Planned merged valid catalog ("api." ++ definition.name ++ "." ++ below)
        (definition.ExposedIn valid)
  | globalMember {item : GlobalMember} {name : String}
      (hitem : item ∈ merged.globals)
      (hname : item.member.name = some name)
      (hkind : item.member.kind ≠ .const) :
      Planned merged valid catalog ("api." ++ name)
        fun scope =>
          (∃ target ∈ item.targets, ∃ definition, merged.find? target = some definition ∧
            definition.ExposedIn valid scope) ∧
          PermittedIn valid item.member.attributes scope

/-- A test is run in some valid scopes, which are listed in order. -/
structure RunsIn
    (valid : NameSet)
    (scopes : String → Prop)
    (test : CompiledTest) : Prop where
  scopes : ∀ scope, scope ∈ test.exposure ↔ scopes scope
  valid : ∀ scope ∈ test.exposure, scope ∈ valid.keys
  ascending : test.exposure.Pairwise (· < ·)

/-- Some tests are the planned ones. -/
structure Realizes
    (valid : NameSet)
    (plan : String → (String → Prop) → Prop)
    (tests : List (String × CompiledTest)) : Prop where
  sound : ∀ test ∈ tests, ∃ scopes, plan test.1 scopes ∧ RunsIn valid scopes test.2
  complete : ∀ path scopes, plan path scopes →
    ∃ test ∈ tests, test.1 = path ∧ RunsIn valid scopes test.2

section Entries

variable
  {catalog : Catalog} {valid exposure : NameSet} {definition : Definition} {merged : Merged}

theorem runsIn_entry
    {scopes : String → Prop} {set : NameSet}
    (path : String)
    (code : TestCode)
    (custom : Override)
    (hscopes : ∀ scope, scope ∈ set.keys ↔ scopes scope)
    (hvalid : ∀ scope ∈ set.keys, scope ∈ valid.keys) :
    RunsIn valid scopes (entry path code custom set.keys).2 :=
  ⟨hscopes, hvalid, set.keys_ascending⟩

/-- The scopes of a member are those of its owner that its restriction permits. -/
theorem mem_narrowExposure_iff
    {owner member : String} {attributes : List ExtendedAttribute} {narrowed : NameSet}
    (h : narrowExposure owner member attributes exposure valid = .ok narrowed)
    (scope : String) :
    scope ∈ narrowed.keys ↔ scope ∈ exposure.keys ∧ PermittedIn valid attributes scope := by
  rw [narrowExposure] at h
  cases hitem : findAttribute attributes "Exposed" with
  | none =>
      rw [hitem] at h
      cases h
      simp [PermittedIn, hitem]
  | some item =>
      rw [hitem] at h
      obtain ⟨own, hown, h⟩ := Reporting.bind_eq_ok_iff.1 h
      cases h
      obtain ⟨-, found, hfound, hmem⟩ := WebIdl.mem_exposedScopes_iff hown
      rw [hitem] at hfound
      cases hfound
      rw [NameSet.mem_keys_inter_iff, hmem]
      simp [PermittedIn, hitem]

theorem memberEntry_runsIn
    {probe : ProbeMember} {test : String × CompiledTest}
    (hexposure : definition.exposure valid = .ok exposure)
    (h : Yields (memberEntry catalog valid definition exposure probe) test) :
    test.1 = "api." ++ definition.name ++ "." ++ probe.name ∧
      RunsIn valid
        (fun scope => definition.ExposedIn valid scope ∧ PermittedIn valid probe.attributes scope)
        test.2 := by
  obtain ⟨before, after, h⟩ := h
  rw [memberEntry] at h
  obtain ⟨narrowed, first, hnarrowed, h⟩ := Reporting.gives_bind_iff.1 h
  obtain ⟨custom, second, -, h⟩ := Reporting.gives_bind_iff.1 h
  obtain ⟨rfl, -⟩ := Reporting.gives_pure_iff.1 h
  obtain ⟨hnarrowed, -⟩ := Reporting.gives_ofExcept_iff.1 hnarrowed
  have hmem := mem_narrowExposure_iff hnarrowed
  refine ⟨rfl, runsIn_entry _ _ _ ?_ ?_⟩
  · intro scope
    rw [hmem, WebIdl.mem_exposure_iff hexposure]
  · intro scope hscope
    exact WebIdl.valid_of_mem_exposure hexposure ((hmem scope).1 hscope).1

theorem subtestEntries_runIn
    {tests : List (String × CompiledTest)}
    (hexposure : definition.exposure valid = .ok exposure)
    (h : Yields (subtestEntries catalog definition exposure) tests) :
    (∀ test ∈ tests, ∃ below, Authored catalog definition below ∧
        test.1 = "api." ++ definition.name ++ "." ++ below ∧
        RunsIn valid (definition.ExposedIn valid) test.2) ∧
      ∀ below, Authored catalog definition below →
        ∃ test ∈ tests, test.1 = "api." ++ definition.name ++ "." ++ below ∧
          RunsIn valid (definition.ExposedIn valid) test.2 := by
  obtain ⟨before, after, h⟩ := h
  rw [subtestEntries] at h
  obtain ⟨subtests, first, hsubtests, h⟩ := Reporting.gives_bind_iff.1 h
  obtain ⟨rfl, -⟩ := Reporting.gives_pure_iff.1 h
  obtain ⟨hcode, hpaths⟩ := Catalog.mem_subtests_iff hsubtests.yields
  have hruns : ∀ (path : String) (code : TestCode) (custom : Override),
      RunsIn valid (definition.ExposedIn valid) (entry path code custom exposure.keys).2 :=
    fun path code custom => runsIn_entry path code custom
      (fun scope => WebIdl.mem_exposure_iff hexposure)
      (fun scope hscope => WebIdl.valid_of_mem_exposure hexposure hscope)
  constructor
  · intro test htest
    obtain ⟨⟨path, custom⟩, hitem, hmade⟩ := List.mem_filterMap.1 htest
    obtain ⟨code, -, rfl⟩ := Option.map_eq_some_iff.1 hmade
    exact ⟨path, (hpaths path).1 (List.mem_map_of_mem hitem), rfl, hruns _ _ _⟩
  · intro below hauthored
    obtain ⟨⟨path, custom⟩, hitem, rfl⟩ := List.mem_map.1 ((hpaths below).2 hauthored)
    obtain ⟨code, htest⟩ := Option.isSome_iff_exists.1 (hcode _ hitem)
    exact ⟨_, List.mem_filterMap.2 ⟨_, hitem, Option.map_eq_some_iff.2 ⟨code, htest, rfl⟩⟩, rfl,
      hruns _ _ _⟩

/-- The scopes of a global member are those of all its targets. -/
theorem mem_targetExposure_iff
    {targets : List String}
    (h : targetExposure merged valid targets = .ok exposure) :
    (∀ scope ∈ exposure.keys, scope ∈ valid.keys) ∧
      ∀ scope, scope ∈ exposure.keys ↔
        ∃ target ∈ targets, ∃ definition, merged.find? target = some definition ∧
          definition.ExposedIn valid scope := by
  obtain ⟨sets, hsets, h⟩ := Reporting.bind_eq_ok_iff.1 h
  cases h
  obtain ⟨hvalues, hitems⟩ := Reporting.exists_of_forall₂ (Reporting.mapM_eq_ok_iff.1 hsets)
  simp only [SortedMap.mem_keys_foldl_union_iff, SortedMap.not_mem_keys_empty, false_or]
  constructor
  · rintro scope ⟨set, hset, hscope⟩
    obtain ⟨definition, -, hok⟩ := hvalues set hset
    exact WebIdl.valid_of_mem_exposure hok hscope
  · intro scope
    constructor
    · rintro ⟨set, hset, hscope⟩
      obtain ⟨definition, hdefinition, hok⟩ := hvalues set hset
      obtain ⟨target, htarget, hfind⟩ := List.mem_filterMap.1 hdefinition
      exact ⟨target, htarget, definition, hfind, (WebIdl.mem_exposure_iff hok).1 hscope⟩
    · rintro ⟨target, htarget, definition, hfind, hexposed⟩
      obtain ⟨set, hset, hok⟩ := hitems definition (List.mem_filterMap.2 ⟨target, htarget, hfind⟩)
      exact ⟨set, hset, (WebIdl.mem_exposure_iff hok).2 hexposed⟩

/-- The tests of a definition that is tested are planned, and all that are planned are made. -/
theorem definitionEntries_realize
    {tests : List (String × CompiledTest)}
    (hmem : definition ∈ merged.definitions)
    (htested : isTested definition)
    (h : Yields (definitionEntries catalog valid definition) tests) :
    (∀ test ∈ tests, ∃ scopes, Planned merged valid catalog test.1 scopes ∧
        RunsIn valid scopes test.2) ∧
      (∃ test ∈ tests, test.1 = "api." ++ definition.name ∧
        RunsIn valid (definition.ExposedIn valid) test.2) ∧
      (∀ probe ∈ probesOf definition,
        ∃ test ∈ tests, test.1 = "api." ++ definition.name ++ "." ++ probe.name ∧
          RunsIn valid
            (fun scope =>
              definition.ExposedIn valid scope ∧ PermittedIn valid probe.attributes scope)
            test.2) ∧
      ∀ below, Authored catalog definition below →
        ∃ test ∈ tests, test.1 = "api." ++ definition.name ++ "." ++ below ∧
          RunsIn valid (definition.ExposedIn valid) test.2 := by
  obtain ⟨before, after, h⟩ := h
  rw [definitionEntries] at h
  obtain ⟨exposure, first, hexposure, h⟩ := Reporting.gives_bind_iff.1 h
  obtain ⟨custom, second, -, h⟩ := Reporting.gives_bind_iff.1 h
  obtain ⟨members, third, hmembers, h⟩ := Reporting.gives_bind_iff.1 h
  obtain ⟨subtests, last, hsubtests, h⟩ := Reporting.gives_bind_iff.1 h
  obtain ⟨rfl, -⟩ := Reporting.gives_pure_iff.1 h
  obtain ⟨hexposure, -⟩ := Reporting.gives_ofExcept_iff.1 hexposure
  obtain ⟨hvalues, hprobes⟩ := hmembers.yields_of_mapM
  obtain ⟨hbelow, hauthored⟩ := subtestEntries_runIn hexposure hsubtests.yields
  have hown : ∀ code, RunsIn valid (definition.ExposedIn valid)
      (entry ("api." ++ definition.name) code custom exposure.keys).2 :=
    fun code => runsIn_entry _ code custom (fun scope => WebIdl.mem_exposure_iff hexposure)
      (fun scope hscope => WebIdl.valid_of_mem_exposure hexposure hscope)
  refine ⟨?_, ⟨_, List.mem_cons_self, rfl, hown _⟩, ?_, ?_⟩
  · intro test htest
    rcases List.mem_cons.1 htest with rfl | htest
    · exact ⟨_, .definition hmem htested, hown _⟩
    · rcases List.mem_append.1 htest with htest | htest
      · obtain ⟨probe, hprobe, hyields⟩ := hvalues test htest
        obtain ⟨hpath, hruns⟩ := memberEntry_runsIn hexposure hyields
        exact ⟨_, hpath ▸ .probe hmem htested hprobe, hruns⟩
      · obtain ⟨below, hwritten, hpath, hruns⟩ := hbelow test htest
        exact ⟨_, hpath ▸ .authored hmem htested hwritten, hruns⟩
  · intro probe hprobe
    obtain ⟨test, htest, hyields⟩ := hprobes probe hprobe
    exact ⟨test, List.mem_cons_of_mem _ (List.mem_append_left _ htest),
      memberEntry_runsIn hexposure hyields⟩
  · intro below hwritten
    obtain ⟨test, htest, hruns⟩ := hauthored below hwritten
    exact ⟨test, List.mem_cons_of_mem _ (List.mem_append_right _ htest), hruns⟩

/-- The test of a global member is planned, and it is made if the member has a name and is no
constant. -/
theorem globalEntry_realize
    {item : GlobalMember} {tests : List (String × CompiledTest)}
    (hitem : item ∈ merged.globals)
    (h : Yields (globalEntry catalog valid merged item) tests) :
    (∀ test ∈ tests, ∃ scopes, Planned merged valid catalog test.1 scopes ∧
        RunsIn valid scopes test.2) ∧
      ∀ name, item.member.name = some name → item.member.kind ≠ .const →
        ∃ test ∈ tests, test.1 = "api." ++ name ∧
          RunsIn valid
            (fun scope =>
              (∃ target ∈ item.targets, ∃ definition, merged.find? target = some definition ∧
                definition.ExposedIn valid scope) ∧
              PermittedIn valid item.member.attributes scope)
            test.2 := by
  obtain ⟨before, after, h⟩ := h
  rw [globalEntry] at h
  cases hname : item.member.name with
  | none =>
      simp only [hname] at h
      obtain ⟨rfl, -⟩ := Reporting.gives_pure_iff.1 h
      simp
  | some name =>
      simp only [hname] at h
      by_cases hkind : item.member.kind = .const
      · simp only [hkind] at h
        obtain ⟨rfl, -⟩ := Reporting.gives_pure_iff.1 h
        simp [hkind]
      · rw [if_neg (by simpa using hkind)] at h
        obtain ⟨exposure, first, hexposure, h⟩ := Reporting.gives_bind_iff.1 h
        obtain ⟨narrowed, second, hnarrowed, h⟩ := Reporting.gives_bind_iff.1 h
        obtain ⟨custom, third, -, h⟩ := Reporting.gives_bind_iff.1 h
        obtain ⟨rfl, -⟩ := Reporting.gives_pure_iff.1 h
        obtain ⟨hexposure, -⟩ := Reporting.gives_ofExcept_iff.1 hexposure
        obtain ⟨hnarrowed, -⟩ := Reporting.gives_ofExcept_iff.1 hnarrowed
        obtain ⟨hvalid, hmem⟩ := mem_targetExposure_iff hexposure
        have hscopes := mem_narrowExposure_iff hnarrowed
        have hruns := runsIn_entry ("api." ++ name) (.member (.of "self" name)) custom
          (fun scope => (hscopes scope).trans (and_congr_left' (hmem scope)))
          (fun scope hscope => hvalid scope ((hscopes scope).1 hscope).1)
        constructor
        · intro test htest
          rw [List.mem_singleton.1 htest]
          exact ⟨_, .globalMember hitem hname hkind, hruns⟩
        · rintro other hother -
          cases hother
          exact ⟨_, List.mem_singleton.2 rfl, rfl, hruns⟩

/-- The tests of merged definitions are the planned ones. -/
theorem apiTests_realize
    {before after : Diagnostics} {table : Table}
    (h : Gives (apiTests merged valid catalog) before table after) :
    ∃ tests, table = Table.ofTests tests ∧ Realizes valid (Planned merged valid catalog) tests := by
  rw [apiTests] at h
  obtain ⟨definitions, first, hdefinitions, h⟩ := Reporting.gives_bind_iff.1 h
  obtain ⟨globals, second, hglobals, h⟩ := Reporting.gives_bind_iff.1 h
  obtain ⟨rfl, -⟩ := Reporting.gives_pure_iff.1 h
  obtain ⟨hmade, htested⟩ := hdefinitions.yields_of_mapM
  obtain ⟨hmadeGlobals, hitems⟩ := hglobals.yields_of_mapM
  refine ⟨_, rfl, ?_, ?_⟩
  · intro test htest
    rcases List.mem_append.1 htest with htest | htest
    · obtain ⟨tests, htests, htest⟩ := List.mem_flatten.1 htest
      obtain ⟨definition, hdefinition, hyields⟩ := hmade tests htests
      obtain ⟨hmem, hisTested⟩ := List.mem_filter.1 hdefinition
      exact (definitionEntries_realize hmem hisTested hyields).1 test htest
    · obtain ⟨tests, htests, htest⟩ := List.mem_flatten.1 htest
      obtain ⟨item, hitem, hyields⟩ := hmadeGlobals tests htests
      exact (globalEntry_realize hitem hyields).1 test htest
  · intro path scopes hplan
    have hfirst : ∀ definition ∈ merged.definitions, isTested definition →
        ∃ tests ∈ definitions, Yields (definitionEntries catalog valid definition) tests :=
      fun definition hmem hisTested => htested definition (List.mem_filter.2 ⟨hmem, hisTested⟩)
    have hleft : ∀ tests ∈ definitions, ∀ test ∈ tests,
        test ∈ definitions.flatten ++ globals.flatten :=
      fun tests htests test htest =>
        List.mem_append_left _ (List.mem_flatten.2 ⟨tests, htests, htest⟩)
    cases hplan with
    | definition hmem hisTested =>
        obtain ⟨tests, htests, hyields⟩ := hfirst _ hmem hisTested
        obtain ⟨test, htest, hruns⟩ := (definitionEntries_realize hmem hisTested hyields).2.1
        exact ⟨test, hleft tests htests test htest, hruns⟩
    | probe hmem hisTested hprobe =>
        obtain ⟨tests, htests, hyields⟩ := hfirst _ hmem hisTested
        obtain ⟨test, htest, hruns⟩ :=
          (definitionEntries_realize hmem hisTested hyields).2.2.1 _ hprobe
        exact ⟨test, hleft tests htests test htest, hruns⟩
    | authored hmem hisTested hauthored =>
        obtain ⟨tests, htests, hyields⟩ := hfirst _ hmem hisTested
        obtain ⟨test, htest, hruns⟩ :=
          (definitionEntries_realize hmem hisTested hyields).2.2.2 _ hauthored
        exact ⟨test, hleft tests htests test htest, hruns⟩
    | globalMember hitem hname hkind =>
        obtain ⟨tests, htests, hyields⟩ := hitems _ hitem
        obtain ⟨test, htest, hruns⟩ := (globalEntry_realize hitem hyields).2 _ hname hkind
        exact ⟨test, List.mem_append_right _ (List.mem_flatten.2 ⟨tests, htests, htest⟩), hruns⟩

end Entries

section Realizes

variable
  {valid : NameSet} {plan : String → (String → Prop) → Prop} {tests : List (String × CompiledTest)}

theorem Realizes.exists_get?
    {path : String} {scopes : String → Prop}
    (h : Realizes valid plan tests)
    (hplan : plan path scopes) :
    ∃ test, (Table.ofTests tests).get? path = some test := by
  obtain ⟨test, htest, hpath, -⟩ := h.complete path scopes hplan
  rw [← Option.isSome_iff_exists, ← SortedMap.mem_keys_iff, Table.mem_keys_ofTests_iff, ← hpath]
  exact List.mem_map_of_mem htest

theorem Realizes.exists_plan
    {path : String} {test : CompiledTest}
    (h : Realizes valid plan tests)
    (htest : (Table.ofTests tests).get? path = some test) :
    ∃ scopes, plan path scopes := by
  have hmem : path ∈ tests.map Prod.fst := by
    rw [← Table.mem_keys_ofTests_iff, SortedMap.mem_keys_iff, htest]
    rfl
  obtain ⟨item, hitem, rfl⟩ := List.mem_map.1 hmem
  obtain ⟨scopes, hplan, -⟩ := h.sound item hitem
  exact ⟨scopes, hplan⟩

/-- A path of the table of planned tests is run in the scopes of all tests planned for it. -/
theorem Realizes.mem_exposure_iff
    {path : String} {test : CompiledTest}
    (h : Realizes valid plan tests)
    (htest : (Table.ofTests tests).get? path = some test)
    (scope : String) :
    scope ∈ test.exposure ↔ ∃ scopes, plan path scopes ∧ scopes scope := by
  have hruns : scope ∈ test.exposure ↔ (Table.ofTests tests).RunsAt path scope := by
    simp [Table.RunsAt, Table.HoldsAt, htest]
  rw [hruns, Table.runsAt_ofTests_iff]
  constructor
  · rintro ⟨item, hitem, rfl, hscope⟩
    obtain ⟨scopes, hplan, hitemRuns⟩ := h.sound item hitem
    exact ⟨scopes, hplan, (hitemRuns.scopes scope).1 hscope⟩
  · rintro ⟨scopes, hplan, hscope⟩
    obtain ⟨item, hitem, hpath, hitemRuns⟩ := h.complete path scopes hplan
    exact ⟨item, hitem, hpath, (hitemRuns.scopes scope).2 hscope⟩

theorem Realizes.exposure_ascending
    {path : String} {test : CompiledTest}
    (h : Realizes valid plan tests)
    (htest : (Table.ofTests tests).get? path = some test) :
    test.exposure.Pairwise (· < ·) ∧ ∀ scope ∈ test.exposure, scope ∈ valid.keys := by
  constructor
  · have hempty : ∀ path test, (SortedMap.empty : Table).get? path = some test →
        test.exposure.Pairwise (· < ·) := by
      simp
    refine Table.exposure_ascending_insertTests hempty ?_ path test htest
    intro item hitem
    obtain ⟨scopes, -, hruns⟩ := h.sound item hitem
    exact hruns.ascending
  · intro scope hscope
    obtain ⟨item, hitem, -, hmem⟩ := Table.runsAt_ofTests_iff.1 ⟨test, htest, hscope⟩
    obtain ⟨scopes, -, hruns⟩ := h.sound item hitem
    exact hruns.valid scope hmem

end Realizes

end Build
end FeatureProbes
