import FeatureProbes.Proofs.Probe.Table
import Mathlib.Data.List.Induction

/-!
# Tests that are inserted one after the other

Tests go into a table in some order, many at the same path and those of other paths between them.
What stands at a path in the end depends only on the tests that this path received, the test that
was there before included.  The first of them gives the code, all of them give the scopes, and of
resources with the same name the latest one stays.

The scopes are sorted as soon as a second test comes in, so the order of the tests after the first
one matters neither to the code nor to the scopes.
-/

namespace FeatureProbes
namespace Probe

namespace CompiledTest

/-- A test with other tests inserted on it, one after the other. -/
def mergeAll
    (first : CompiledTest)
    (more : List CompiledTest) :
    CompiledTest :=
  more.foldl merge first

/-- Of several tests at the same path, the latest one with a resource of this name has this one. -/
def Latest
    (tests : List CompiledTest)
    (name : String)
    (resource : Catalog.Resource) : Prop :=
  ∃ earlier given later, tests = earlier ++ given :: later ∧ given.Carries name resource ∧
    ∀ other ∈ later, ∀ resource, ¬other.Carries name resource

/-- A test is what several tests at the same path come to. -/
structure IsMergeOf
    (test first : CompiledTest)
    (more : List CompiledTest) : Prop where
  alone : more = [] → test = first
  code : test.code = first.code
  scopes : ∀ scope, scope ∈ test.exposure ↔ ∃ given ∈ first :: more, scope ∈ given.exposure
  sorted : more ≠ [] → test.exposure.Pairwise (· ≤ ·)
  distinct : first.exposure.Nodup → test.exposure.Nodup
  bare : test.resources = none ↔ ∀ given ∈ first :: more, given.resources = none
  latest : ∀ name resource, test.Carries name resource ↔ Latest (first :: more) name resource

/-! ## One insertion -/

theorem resources_merge_eq_none_iff
    {existing incoming : CompiledTest} :
    (existing.merge incoming).resources = none ↔
      existing.resources = none ∧ incoming.resources = none := by
  change mergeResources existing.resources incoming.resources = none ↔ _
  cases incoming.resources <;> simp [mergeResources]

/-! ## Many insertions -/

section mergeAll

variable {first : CompiledTest} {more : List CompiledTest}

theorem mergeAll_append_singleton
    (first : CompiledTest)
    (more : List CompiledTest)
    (test : CompiledTest) :
    first.mergeAll (more ++ [test]) = (first.mergeAll more).merge test := by
  rw [mergeAll, List.foldl_append]
  rfl

theorem code_mergeAll
    (first : CompiledTest)
    (more : List CompiledTest) :
    (first.mergeAll more).code = first.code := by
  induction more using List.reverseRecOn with
  | nil =>
      rfl
  | append_singleton more test ih =>
      rw [mergeAll_append_singleton]
      exact ih

theorem mem_exposure_mergeAll_iff
    {scope : String} :
    scope ∈ (first.mergeAll more).exposure ↔
      ∃ given ∈ first :: more, scope ∈ given.exposure := by
  induction more using List.reverseRecOn with
  | nil =>
      simp [mergeAll]
  | append_singleton more test ih =>
      rw [mergeAll_append_singleton]
      refine Table.mem_mergeExposure_iff.trans ?_
      rw [ih, ← List.cons_append]
      simp only [List.mem_append, List.mem_singleton, or_and_right, exists_or, exists_eq_left]

/-- Scopes of the first test are listed as often as it lists them, those of the others once. -/
theorem count_exposure_mergeAll
    (first : CompiledTest)
    (more : List CompiledTest)
    (scope : String) :
    (first.mergeAll more).exposure.count scope =
      if scope ∈ first.exposure then first.exposure.count scope
      else if ∃ given ∈ more, scope ∈ given.exposure then 1 else 0 := by
  induction more using List.reverseRecOn with
  | nil =>
      by_cases hfirst : scope ∈ first.exposure
      · simp [mergeAll, hfirst]
      · simp [mergeAll, hfirst, List.count_eq_zero]
  | append_singleton more test ih =>
      rw [mergeAll_append_singleton]
      change (mergeExposure (first.mergeAll more).exposure test.exposure).count scope = _
      rw [Table.count_mergeExposure, ih]
      simp only [mem_exposure_mergeAll_iff, List.exists_mem_cons_iff]
      by_cases hfirst : scope ∈ first.exposure
      · simp [hfirst]
      · by_cases hmore : ∃ given ∈ more, scope ∈ given.exposure
        · simp [hfirst, hmore, or_and_right, exists_or]
        · simp [hfirst, hmore, or_and_right, exists_or]

theorem sorted_exposure_mergeAll
    (h : more ≠ []) :
    (first.mergeAll more).exposure.Pairwise (· ≤ ·) := by
  obtain ⟨earlier, test, rfl⟩ := (List.eq_nil_or_concat more).resolve_left h
  rw [List.concat_eq_append, mergeAll_append_singleton]
  exact Table.mergeExposure_sorted _ _

theorem nodup_exposure_mergeAll
    (h : first.exposure.Nodup) :
    (first.mergeAll more).exposure.Nodup := by
  induction more using List.reverseRecOn with
  | nil =>
      exact h
  | append_singleton more test ih =>
      rw [mergeAll_append_singleton]
      exact Table.nodup_mergeExposure ih

theorem resources_mergeAll_eq_none_iff :
    (first.mergeAll more).resources = none ↔
      ∀ given ∈ first :: more, given.resources = none := by
  induction more using List.reverseRecOn with
  | nil =>
      simp [mergeAll]
  | append_singleton more test ih =>
      rw [mergeAll_append_singleton, resources_merge_eq_none_iff, ih, ← List.cons_append,
        List.forall_mem_append]
      simp

/-- The latest test of a row that goes on is the last one, else that of the row before it. -/
theorem latest_append_singleton_iff
    {tests : List CompiledTest} {test : CompiledTest} {name : String}
    {resource : Catalog.Resource} :
    Latest (tests ++ [test]) name resource ↔
      test.Carries name resource ∨
        Latest tests name resource ∧ ∀ resource, ¬test.Carries name resource := by
  constructor
  · rintro ⟨earlier, given, later, hsplit, hgiven, hlater⟩
    rcases List.eq_nil_or_concat later with rfl | ⟨before, last, rfl⟩
    · obtain ⟨-, hlast⟩ := List.append_inj' hsplit rfl
      cases hlast
      exact Or.inl hgiven
    · rw [List.concat_eq_append, ← List.cons_append, ← List.append_assoc] at hsplit
      obtain ⟨hrow, hlast⟩ := List.append_inj' hsplit rfl
      cases hlast
      rw [List.concat_eq_append, List.forall_mem_append] at hlater
      exact Or.inr ⟨⟨earlier, given, before, hrow, hgiven, hlater.1⟩,
        hlater.2 test (List.mem_singleton_self test)⟩
  · rintro (h | ⟨⟨earlier, given, later, rfl, hgiven, hlater⟩, hnone⟩)
    · exact ⟨tests, test, [], rfl, h, nofun⟩
    · refine ⟨earlier, given, later ++ [test], by simp, hgiven, ?_⟩
      rw [List.forall_mem_append]
      exact ⟨hlater, by simpa using hnone⟩

theorem carries_mergeAll_iff
    {name : String} {resource : Catalog.Resource} :
    (first.mergeAll more).Carries name resource ↔ Latest (first :: more) name resource := by
  induction more using List.reverseRecOn generalizing resource with
  | nil =>
      have hnil : Latest [] name resource ↔ False := by
        simp [Latest]
      rw [← List.nil_append [first], latest_append_singleton_iff, hnil]
      simp [mergeAll]
  | append_singleton more test ih =>
      rw [mergeAll_append_singleton, carries_merge_iff, ih, ← List.cons_append,
        latest_append_singleton_iff]

theorem isMergeOf_mergeAll
    (first : CompiledTest)
    (more : List CompiledTest) :
    (first.mergeAll more).IsMergeOf first more where
  alone := by
    rintro rfl
    rfl
  code := code_mergeAll first more
  scopes _ := mem_exposure_mergeAll_iff
  sorted := sorted_exposure_mergeAll
  distinct := nodup_exposure_mergeAll
  bare := resources_mergeAll_eq_none_iff
  latest _ _ := carries_mergeAll_iff

/-- The order of the tests after the first one does not matter to the scopes. -/
theorem exposure_mergeAll_of_perm
    {more' : List CompiledTest}
    (h : more.Perm more') :
    (first.mergeAll more).exposure = (first.mergeAll more').exposure := by
  rcases eq_or_ne more [] with rfl | hmore
  · rw [h.nil_eq]
  · have hmore' : more' ≠ [] := fun hnil => hmore (h.trans (.of_eq hnil)).eq_nil
    refine List.Perm.eq_of_pairwise ?_ (sorted_exposure_mergeAll hmore)
      (sorted_exposure_mergeAll hmore') ?_
    · intro a b _ _ hab hba
      exact String.le_antisymm hab hba
    · rw [List.perm_iff_count]
      intro scope
      rw [count_exposure_mergeAll, count_exposure_mergeAll]
      simp only [h.mem_iff]

end mergeAll

end CompiledTest

/-! ## Tables -/

namespace Table

/-- The tests that a path receives, the one that is there already included. -/
def received
    (table : Table)
    (tests : List (String × CompiledTest))
    (path : String) :
    List CompiledTest :=
  (table.get? path).toList ++ (tests.filter fun test => test.1 = path).map Prod.snd

variable {table : Table} {tests : List (String × CompiledTest)} {path : String}

theorem foldl_mergedOnto
    (first : CompiledTest)
    (tests : List (String × CompiledTest)) :
    tests.foldl (fun found test => some (mergedOnto found test.2)) (some first) =
      some (first.mergeAll (tests.map Prod.snd)) := by
  induction tests generalizing first with
  | nil =>
      rfl
  | cons head rest ih =>
      exact ih (first.merge head.2)

/-- At a path stands what the tests come to that it received. -/
theorem get?_insertTests_of_received
    {first : CompiledTest} {more : List CompiledTest}
    (h : received table tests path = first :: more) :
    (table.insertTests tests).get? path = some (first.mergeAll more) := by
  rw [get?_insertTests]
  rw [received] at h
  cases htable : table.get? path with
  | some existing =>
      rw [htable, Option.toList_some, List.singleton_append, List.cons.injEq] at h
      rw [foldl_mergedOnto, h.1, h.2]
  | none =>
      rw [htable, Option.toList_none, List.nil_append] at h
      obtain ⟨head, rest, hfilter, rfl, rfl⟩ := List.map_eq_cons_iff.1 h
      rw [hfilter]
      exact foldl_mergedOnto head.2 rest

theorem get?_insertTests_of_received_nil
    (h : received table tests path = []) :
    (table.insertTests tests).get? path = none := by
  rw [received, List.append_eq_nil_iff, Option.toList_eq_nil_iff, List.map_eq_nil_iff] at h
  rw [get?_insertTests, h.1, h.2]
  rfl

theorem received_eq_nil_iff :
    received table tests path = [] ↔ path ∉ table.keys ∧ path ∉ tests.map Prod.fst := by
  rw [received, List.append_eq_nil_iff, Option.toList_eq_nil_iff, List.map_eq_nil_iff,
    List.filter_eq_nil_iff, SortedMap.mem_keys_iff, Option.not_isSome_iff_eq_none, List.mem_map]
  simp only [decide_eq_true_eq, not_exists, not_and]

theorem mem_keys_insertTests_iff :
    path ∈ (table.insertTests tests).keys ↔ path ∈ table.keys ∨ path ∈ tests.map Prod.fst := by
  rw [SortedMap.mem_keys_iff, ← not_iff_not, not_or, ← received_eq_nil_iff]
  cases h : received table tests path with
  | nil =>
      simp [get?_insertTests_of_received_nil h]
  | cons first more =>
      simp [get?_insertTests_of_received h]

/-- A table has the paths that it had and those of the inserted tests, and at each path stands what
the tests come to that it received.  Tests that are inserted in another order, with the same test
coming first at a path, give the same code and the same scopes there. -/
theorem insertTests_received
    (table : Table)
    (tests : List (String × CompiledTest)) :
    (∀ path, path ∈ (table.insertTests tests).keys ↔
        path ∈ table.keys ∨ path ∈ tests.map Prod.fst) ∧
      (∀ path first more, received table tests path = first :: more →
        ∃ test, (table.insertTests tests).get? path = some test ∧ test.IsMergeOf first more) ∧
      ∀ tests' : List (String × CompiledTest), tests.Perm tests' → ∀ path,
        (received table tests path).head? = (received table tests' path).head? →
          ((table.insertTests tests).get? path).map CompiledTest.code =
              ((table.insertTests tests').get? path).map CompiledTest.code ∧
            ((table.insertTests tests).get? path).map CompiledTest.exposure =
              ((table.insertTests tests').get? path).map CompiledTest.exposure := by
  refine ⟨fun path => mem_keys_insertTests_iff, ?_, ?_⟩
  · intro path first more h
    exact ⟨_, get?_insertTests_of_received h, CompiledTest.isMergeOf_mergeAll first more⟩
  · intro tests' hperm path hhead
    have hreceived : (received table tests path).Perm (received table tests' path) :=
      ((hperm.filter _).map _).append_left _
    cases h : received table tests path with
    | nil =>
        rw [h] at hreceived
        rw [get?_insertTests_of_received_nil h,
          get?_insertTests_of_received_nil hreceived.nil_eq.symm]
        exact ⟨rfl, rfl⟩
    | cons first more =>
        rw [h] at hreceived hhead
        obtain ⟨more', h'⟩ := List.head?_eq_some_iff.1 hhead.symm
        rw [h', List.perm_cons] at hreceived
        rw [get?_insertTests_of_received h, get?_insertTests_of_received h']
        have hcode := CompiledTest.code_mergeAll first more
        have hcode' := CompiledTest.code_mergeAll first more'
        exact ⟨congrArg some (hcode.trans hcode'.symm),
          congrArg some (CompiledTest.exposure_mergeAll_of_perm hreceived)⟩

/-- A test of an interface, and tests that come after it: of another interface, and twice of the
same one. -/
def harpTest : String × CompiledTest :=
  ("api.Harp", ⟨"\"Harp\" in self", ["Worker", "Window"], none⟩)

/-- The tests that come after that of the interface. -/
def laterTests : List (String × CompiledTest) :=
  [("api.Harp", ⟨"true", ["Window", "Audio"], some (.ofList [("pedal", .object "first")])⟩),
    ("api.Lute", ⟨"\"Lute\" in self", ["Window"], none⟩),
    ("api.Harp", ⟨"false", ["Paint", "Paint"], some (.ofList [("pedal", .object "second")])⟩)]

/-- The code is that of the first test, the scopes are those of all three tests, the resource is
that of the last one, and the order of the later tests matters neither to the code nor to the
scopes. -/
theorem insertTests_harp :
    (∃ test, (insertTests .empty (harpTest :: laterTests)).get? "api.Harp" = some test ∧
        test.code = "\"Harp\" in self" ∧ test.exposure.Pairwise (· ≤ ·) ∧ test.exposure.Nodup ∧
        "Paint" ∈ test.exposure ∧ test.Carries "pedal" (.object "second")) ∧
      ((insertTests .empty (harpTest :: laterTests)).get? "api.Harp").map CompiledTest.exposure =
        ((insertTests .empty (harpTest :: laterTests.reverse)).get? "api.Harp").map
          CompiledTest.exposure := by
  obtain ⟨-, hstands, horder⟩ := insertTests_received .empty (harpTest :: laterTests)
  refine ⟨?_, (horder _ ((List.reverse_perm _).symm.cons harpTest) "api.Harp" rfl).2⟩
  obtain ⟨test, htest, hmerge⟩ := hstands "api.Harp" _ _ rfl
  refine ⟨test, htest, hmerge.code, hmerge.sorted (List.cons_ne_nil _ _),
    hmerge.distinct (by decide), ?_, ?_⟩
  · exact (hmerge.scopes "Paint").2 ⟨_, .tail _ (.tail _ (.head _)), .head _⟩
  · exact (hmerge.latest "pedal" _).2 ⟨[_, _], _, [], rfl, ⟨_, rfl, rfl⟩, nofun⟩

end Table
end Probe
end FeatureProbes
