import FeatureProbes.Probe.Table
import FeatureProbes.Proofs.SortedMap
import Mathlib.Data.List.Nodup

/-!
# Look-ups in tables of tests

A table that is made of tests has a test at the paths of these tests and nowhere else.  Of several
tests with the same path the first one decides on the code.  Two tables that are made of tests with
the same paths, scopes and resources differ at most in the code, and there only where the tests do.

The scopes at a path are those of all tests with this path.
-/

namespace FeatureProbes
namespace Probe

/-! ## Resources of tests -/

namespace CompiledTest

/-- A test comes with a resource under some name. -/
def Carries
    (test : CompiledTest)
    (name : String)
    (resource : Catalog.Resource) : Prop :=
  ∃ resources, test.resources = some resources ∧ resources.get? name = some resource

section Carries

variable {existing incoming : CompiledTest} {name : String} {resource : Catalog.Resource}

/-- A resource of the incoming test replaces the one with its name. -/
theorem carries_merge_iff :
    (existing.merge incoming).Carries name resource ↔
      incoming.Carries name resource ∨
        existing.Carries name resource ∧ ∀ resource, ¬incoming.Carries name resource := by
  have hexisting : ∀ found, (existing.resources.getD .empty).get? name = some found ↔
      existing.Carries name found := by
    intro found
    cases hresources : existing.resources <;> simp [Carries, hresources]
  change (∃ resources, mergeResources existing.resources incoming.resources = some resources ∧
    resources.get? name = some resource) ↔ _
  cases hincoming : incoming.resources with
  | none =>
      simp [mergeResources, Carries, hincoming]
  | some second =>
      have hcarries : ∀ found, incoming.Carries name found ↔ second.get? name = some found := by
        simp [Carries, hincoming]
      simp only [mergeResources, Option.some.injEq, exists_eq_left', SortedMap.get?_union,
        hcarries, ← hexisting]
      cases second.get? name <;> simp

/-- What merged tests come with is from one of them. -/
theorem carries_or_of_merge
    (h : (existing.merge incoming).Carries name resource) :
    existing.Carries name resource ∨ incoming.Carries name resource :=
  (carries_merge_iff.1 h).symm.imp_left And.left

/-- Merged tests come with something under the names of both of them. -/
theorem exists_carries_merge
    (h : (∃ resource, existing.Carries name resource) ∨
      ∃ resource, incoming.Carries name resource) :
    ∃ resource, (existing.merge incoming).Carries name resource := by
  simp only [carries_merge_iff]
  by_cases hincoming : ∃ resource, incoming.Carries name resource
  · obtain ⟨resource, hresource⟩ := hincoming
    exact ⟨resource, Or.inl hresource⟩
  · obtain ⟨resource, hresource⟩ := h.resolve_right hincoming
    exact ⟨resource, Or.inr ⟨hresource, not_exists.1 hincoming⟩⟩

end Carries

end CompiledTest

namespace Table

/-- What a test that is inserted leaves at its path. -/
def mergedOnto
    (found : Option CompiledTest)
    (test : CompiledTest) :
    CompiledTest :=
  match found with
  | none => test
  | some existing => existing.merge test

theorem insertTest_eq
    (table : Table)
    (path : String)
    (test : CompiledTest) :
    table.insertTest path test = table.insert path (mergedOnto (table.get? path) test) := by
  rw [insertTest]
  cases table.get? path <;> rfl

theorem get?_insertTest
    (table : Table)
    (path : String)
    (test : CompiledTest)
    (other : String) :
    (table.insertTest path test).get? other =
      if other = path then some (mergedOnto (table.get? path) test) else table.get? other := by
  rw [insertTest_eq, SortedMap.get?_insert]

/-- The test at a path is made of the one that was there and of those with this path, in order. -/
theorem get?_insertTests
    (table : Table)
    (tests : List (String × CompiledTest))
    (path : String) :
    (table.insertTests tests).get? path =
      (tests.filter fun test => test.1 = path).foldl
        (fun found test => some (mergedOnto found test.2)) (table.get? path) := by
  induction tests generalizing table with
  | nil =>
      rfl
  | cons head rest ih =>
      have hstep : table.insertTests (head :: rest) =
          (table.insertTest head.1 head.2).insertTests rest := rfl
      rw [hstep, ih, get?_insertTest, List.filter_cons]
      by_cases hpath : head.1 = path
      · simp [hpath]
      · simp [hpath, Ne.symm hpath]

/-- Inserting a table with other paths is adding its tests. -/
theorem get?_insertTests_entries
    {table other : Table}
    (h : ∀ path ∈ table.keys, path ∉ other.keys)
    (path : String) :
    (table.insertTests other.entries).get? path = (table.get? path).or (other.get? path) := by
  rw [get?_insertTests, SortedMap.filter_entries_eq]
  cases hother : other.get? path with
  | none =>
      simp
  | some test =>
      have hnone : table.get? path = none := by
        rw [← Option.not_isSome_iff_eq_none, ← SortedMap.mem_keys_iff]
        intro hmem
        exact h path hmem (SortedMap.mem_keys_iff.2 (by simp [hother]))
      simp [hnone, mergedOnto]

/-- The code at a path is the one that was there, else that of the first test with this path. -/
theorem code_get?_insertTests
    (table : Table)
    (tests : List (String × CompiledTest))
    (path : String) :
    ((table.insertTests tests).get? path).map CompiledTest.code =
      ((table.get? path).map CompiledTest.code).or
        ((tests.find? fun test => test.1 = path).map fun test => test.2.code) := by
  induction tests generalizing table with
  | nil =>
      simp [insertTests]
  | cons head rest ih =>
      have hstep : table.insertTests (head :: rest) =
          (table.insertTest head.1 head.2).insertTests rest := rfl
      rw [hstep, ih, get?_insertTest]
      by_cases hpath : path = head.1
      · subst hpath
        cases htable : table.get? head.1 with
        | none =>
            simp [mergedOnto]
        | some existing =>
            simp [mergedOnto, CompiledTest.merge]
      · simp [hpath, Ne.symm hpath]

/-- The code at a path of a table is that of the first test with this path. -/
theorem code_get?_ofTests
    (tests : List (String × CompiledTest))
    (path : String) :
    ((ofTests tests).get? path).map CompiledTest.code =
      (tests.find? fun test => test.1 = path).map fun test => test.2.code := by
  rw [ofTests, code_get?_insertTests, SortedMap.get?_empty, Option.map_none, Option.none_or]

theorem mem_keys_ofTests_iff
    {tests : List (String × CompiledTest)} {path : String} :
    path ∈ (ofTests tests).keys ↔ path ∈ tests.map Prod.fst := by
  have hcode := congrArg Option.isSome (code_get?_ofTests tests path)
  rw [Option.isSome_map, Option.isSome_map] at hcode
  rw [SortedMap.mem_keys_iff, hcode, List.find?_isSome, List.mem_map]
  simp

/-! ## Tests with the same path -/

/-- The test at some path has a property. -/
def HoldsAt
    (P : CompiledTest → Prop)
    (table : Table)
    (path : String) : Prop :=
  ∃ test, table.get? path = some test ∧ P test

section HoldsAt

variable
  {P : CompiledTest → Prop} {table : Table} {tests : List (String × CompiledTest)} {path : String}

theorem holdsAt_insertTest
    {other : String} {test : CompiledTest}
    (hmerge : ∀ existing incoming, P (existing.merge incoming) → P existing ∨ P incoming)
    (h : HoldsAt P (table.insertTest other test) path) :
    HoldsAt P table path ∨ other = path ∧ P test := by
  obtain ⟨found, hfound, hP⟩ := h
  rw [get?_insertTest] at hfound
  split at hfound
  · rename_i hpath
    cases hfound
    cases htable : table.get? other with
    | none =>
        rw [htable] at hP
        exact Or.inr ⟨hpath.symm, hP⟩
    | some existing =>
        rw [htable] at hP
        rcases hmerge existing test hP with hP | hP
        · exact Or.inl ⟨existing, hpath ▸ htable, hP⟩
        · exact Or.inr ⟨hpath.symm, hP⟩
  · exact Or.inl ⟨found, hfound, hP⟩

theorem HoldsAt.insertTest
    {other : String} {test : CompiledTest}
    (hmerge : ∀ existing incoming, P existing ∨ P incoming → P (existing.merge incoming))
    (h : HoldsAt P table path ∨ other = path ∧ P test) :
    HoldsAt P (table.insertTest other test) path := by
  rw [HoldsAt, get?_insertTest]
  by_cases hpath : path = other
  · subst hpath
    rw [if_pos rfl]
    refine ⟨_, rfl, ?_⟩
    cases htable : table.get? path with
    | none =>
        rcases h with ⟨found, hfound, -⟩ | ⟨-, hP⟩
        · cases htable.symm.trans hfound
        · exact hP
    | some existing =>
        refine hmerge existing test (h.imp ?_ And.right)
        rintro ⟨found, hfound, hP⟩
        cases htable.symm.trans hfound
        exact hP
  · rw [if_neg hpath]
    exact h.resolve_right fun hother => hpath hother.1.symm

theorem holdsAt_insertTests
    (hmerge : ∀ existing incoming, P (existing.merge incoming) → P existing ∨ P incoming)
    (h : HoldsAt P (table.insertTests tests) path) :
    HoldsAt P table path ∨ ∃ test ∈ tests, test.1 = path ∧ P test.2 := by
  induction tests generalizing table with
  | nil =>
      exact Or.inl h
  | cons head rest ih =>
      have hrest : HoldsAt P ((table.insertTest head.1 head.2).insertTests rest) path := h
      rcases ih hrest with hhead | ⟨test, htest, hpath, hP⟩
      · exact (holdsAt_insertTest hmerge hhead).imp_right
          fun hthis => ⟨head, List.mem_cons_self, hthis⟩
      · exact Or.inr ⟨test, List.mem_cons_of_mem _ htest, hpath, hP⟩

theorem HoldsAt.insertTests
    (hmerge : ∀ existing incoming, P existing ∨ P incoming → P (existing.merge incoming))
    (h : HoldsAt P table path ∨ ∃ test ∈ tests, test.1 = path ∧ P test.2) :
    HoldsAt P (table.insertTests tests) path := by
  induction tests generalizing table with
  | nil =>
      exact h.resolve_right (by simp)
  | cons head rest ih =>
      change HoldsAt P ((table.insertTest head.1 head.2).insertTests rest) path
      refine ih ?_
      rcases h with h | ⟨test, htest, hpath, hP⟩
      · exact Or.inl (.insertTest hmerge (Or.inl h))
      · rcases List.mem_cons.1 htest with rfl | htest
        · exact Or.inl (.insertTest hmerge (Or.inr ⟨hpath, hP⟩))
        · exact Or.inr ⟨test, htest, hpath, hP⟩

/-- What merged tests have only if one of them has it comes from a test that is inserted. -/
theorem exists_mem_of_holdsAt
    (hmerge : ∀ existing incoming, P (existing.merge incoming) → P existing ∨ P incoming)
    (h : HoldsAt P (ofTests tests) path) :
    ∃ test ∈ tests, test.1 = path ∧ P test.2 := by
  refine (holdsAt_insertTests hmerge h).resolve_left ?_
  rintro ⟨test, htest, -⟩
  cases htest

/-- What merged tests have if one of them has it holds at the path of every test that has it. -/
theorem holdsAt_of_mem
    {test : String × CompiledTest}
    (hmerge : ∀ existing incoming, P existing ∨ P incoming → P (existing.merge incoming))
    (hmem : test ∈ tests)
    (hP : P test.2) :
    HoldsAt P (ofTests tests) test.1 :=
  HoldsAt.insertTests hmerge (Or.inr ⟨test, hmem, rfl, hP⟩)

end HoldsAt

/-! ## Scopes -/

/-- Scopes that are listed stay as they are, and each of the others is listed once. -/
theorem count_mergeExposure
    (existing incoming : List String)
    (scope : String) :
    (mergeExposure existing incoming).count scope =
      if scope ∈ existing then existing.count scope
      else if scope ∈ incoming then 1 else 0 := by
  rw [mergeExposure, (List.mergeSort_perm _ _).count_eq]
  induction incoming generalizing existing with
  | nil =>
      by_cases hexisting : scope ∈ existing
      · simp [hexisting]
      · simp [hexisting, List.count_eq_zero]
  | cons head rest ih =>
      rw [List.foldl_cons, ih]
      by_cases hhead : head ∈ existing
      · rw [if_pos (List.contains_iff_mem.2 hhead)]
        by_cases heq : scope = head
        · simp [heq, hhead]
        · simp [heq]
      · rw [if_neg (mt List.contains_iff_mem.1 hhead)]
        by_cases heq : scope = head
        · subst heq
          simp [hhead, List.count_eq_zero]
        · simp [heq, List.count_append, Ne.symm heq]

theorem mem_mergeExposure_iff
    {existing incoming : List String} {scope : String} :
    scope ∈ mergeExposure existing incoming ↔ scope ∈ existing ∨ scope ∈ incoming := by
  rw [← List.count_pos_iff, count_mergeExposure]
  split
  · rename_i hexisting
    simp [hexisting, List.count_pos_iff]
  · rename_i hexisting
    by_cases hincoming : scope ∈ incoming
    · simp [hexisting, hincoming]
    · simp [hexisting, hincoming]

theorem mergeExposure_sorted
    (existing incoming : List String) :
    (mergeExposure existing incoming).Pairwise (· ≤ ·) := by
  refine (List.pairwise_mergeSort ?_ ?_ _).imp ?_
  · intro a b c hab hbc
    simpa using String.le_trans (by simpa using hab) (by simpa using hbc)
  · intro a b
    simpa using String.le_total a b
  · intro a b hab
    simpa using hab

theorem nodup_mergeExposure
    {existing incoming : List String}
    (h : existing.Nodup) :
    (mergeExposure existing incoming).Nodup := by
  rw [List.nodup_iff_count_le_one] at h ⊢
  intro scope
  rw [count_mergeExposure]
  split
  · exact h scope
  · split <;> omega

/-- Scopes are put in order, and none is listed twice. -/
theorem mergeExposure_ascending
    {existing incoming : List String}
    (h : existing.Pairwise (· < ·)) :
    (mergeExposure existing incoming).Pairwise (· < ·) := by
  have hdistinct : (mergeExposure existing incoming).Nodup :=
    nodup_mergeExposure (h.imp fun hlt => String.ne_of_lt hlt)
  refine (mergeExposure_sorted existing incoming).imp₂ ?_ hdistinct
  intro a b hle hne
  exact String.not_le.1 fun hge => hne (String.le_antisymm hle hge)

/-- The tests at some path are run in a scope. -/
def RunsAt
    (table : Table)
    (path scope : String) : Prop :=
  table.HoldsAt (fun test => scope ∈ test.exposure) path

/-- A path of a table of tests is run in the scopes of all tests with this path. -/
theorem runsAt_ofTests_iff
    {tests : List (String × CompiledTest)} {path scope : String} :
    (ofTests tests).RunsAt path scope ↔
      ∃ test ∈ tests, test.1 = path ∧ scope ∈ test.2.exposure := by
  have hmerge : ∀ existing incoming : CompiledTest,
      scope ∈ (existing.merge incoming).exposure ↔
        scope ∈ existing.exposure ∨ scope ∈ incoming.exposure :=
    fun _ _ => mem_mergeExposure_iff
  constructor
  · exact exists_mem_of_holdsAt fun existing incoming => (hmerge existing incoming).1
  · rintro ⟨test, htest, rfl, hscope⟩
    exact holdsAt_of_mem (fun existing incoming => (hmerge existing incoming).2) htest hscope

/-- If the scopes of all tests are in order, so are those of the tests of their table. -/
theorem exposure_ascending_insertTests
    {table : Table} {tests : List (String × CompiledTest)}
    (htable : ∀ path test, table.get? path = some test → test.exposure.Pairwise (· < ·))
    (htests : ∀ test ∈ tests, test.2.exposure.Pairwise (· < ·)) :
    ∀ path test, (table.insertTests tests).get? path = some test →
      test.exposure.Pairwise (· < ·) := by
  induction tests generalizing table with
  | nil =>
      exact htable
  | cons head rest ih =>
      refine ih ?_ fun test hmem => htests test (List.mem_cons_of_mem head hmem)
      intro path test htest
      have hhead := htests head List.mem_cons_self
      rw [get?_insertTest] at htest
      split at htest
      · cases hfound : table.get? head.1 with
        | none =>
            rw [hfound] at htest
            cases htest
            exact hhead
        | some existing =>
            rw [hfound] at htest
            cases htest
            exact mergeExposure_ascending (htable head.1 existing hfound)
      · exact htable path test htest

/-! ## Pairs of tables -/

/-- Two tests for a path are run in the same scopes with the same resources, and they have the same
code unless the path is the one that is left out. -/
structure AgreeBut
    (spared path : String)
    (first second : CompiledTest) : Prop where
  exposure : first.exposure = second.exposure
  resources : first.resources = second.resources
  code : path ≠ spared → first.code = second.code

section AgreeBut

variable {spared : String}

theorem mergedOnto_agreeBut
    {path : String} {found found' : Option CompiledTest} {test test' : CompiledTest}
    (hfound : Option.Rel (AgreeBut spared path) found found')
    (htest : AgreeBut spared path test test') :
    AgreeBut spared path (mergedOnto found test) (mergedOnto found' test') := by
  cases hfound with
  | none =>
      exact htest
  | @some existing existing' hexisting =>
      refine ⟨?_, ?_, hexisting.code⟩
      · exact congrArg₂ mergeExposure hexisting.exposure htest.exposure
      · exact congrArg₂ mergeResources hexisting.resources htest.resources

/-- Tests that agree one by one are inserted into tables that agree. -/
theorem agree_insertTests
    {table table' : Table} {tests tests' : List (String × CompiledTest)}
    (htable : SortedMap.Agree (AgreeBut spared) table table')
    (htests : List.Forall₂ (SortedMap.EntryAgree (AgreeBut spared)) tests tests') :
    SortedMap.Agree (AgreeBut spared) (table.insertTests tests) (table'.insertTests tests') := by
  induction htests generalizing table table' with
  | nil =>
      exact htable
  | cons hhead _ ih =>
      rw [insertTests, insertTests, List.foldl_cons, List.foldl_cons, ← hhead.1]
      refine ih ?_
      rw [insertTest_eq, insertTest_eq]
      exact htable.insert (mergedOnto_agreeBut (htable.get? _) hhead.2)

theorem agree_ofTests
    {tests tests' : List (String × CompiledTest)}
    (h : List.Forall₂ (SortedMap.EntryAgree (AgreeBut spared)) tests tests') :
    SortedMap.Agree (AgreeBut spared) (ofTests tests) (ofTests tests') :=
  agree_insertTests .nil h

end AgreeBut

end Table
end Probe
end FeatureProbes
