import FeatureProbes.Proofs.Build.Entries
import FeatureProbes.Proofs.Build.Steps

/-!
# Tables of probes

Style properties and built-in objects come as rows of probes with their paths.  Every probe is
turned into a test: the code is that of the catalog if it has a test at this path, and all tests are
run in the same scopes.

Several probes may have the same path.  As the catalog says the same about all of them, its code
stands there, and without such code that of the first probe.
-/

namespace FeatureProbes

namespace Probe
namespace Table

/-- Scopes in order. -/
def sorted
    (scopes : List String) :
    List String :=
  scopes.mergeSort fun a b => a ≤ b

@[simp] theorem sorted_sorted
    (scopes : List String) :
    sorted (sorted scopes) = sorted scopes := by
  refine List.mergeSort_of_pairwise ?_
  exact (mergeExposure_sorted scopes []).imp fun hle => decide_eq_true hle

@[simp] theorem mem_sorted_iff
    {scopes : List String} {scope : String} :
    scope ∈ sorted scopes ↔ scope ∈ scopes :=
  List.mem_mergeSort

/-- Scopes that are all listed are not added again. -/
theorem mergeExposure_of_subset
    {existing incoming : List String}
    (h : ∀ scope ∈ incoming, scope ∈ existing) :
    mergeExposure existing incoming = sorted existing := by
  have hfold : incoming.foldl
      (fun scopes scope => if scopes.contains scope then scopes else scopes ++ [scope])
      existing = existing := by
    induction incoming with
    | nil =>
        rfl
    | cons scope incoming ih =>
        have hscope : existing.contains scope = true :=
          List.contains_iff_mem.2 (h scope List.mem_cons_self)
        rw [List.foldl_cons, if_pos hscope]
        exact ih fun other hother => h other (List.mem_cons_of_mem _ hother)
  rw [mergeExposure, hfold, sorted]

/-- What all inserted tests have, and merged tests have if both of them have it, holds of every test
of a table. -/
theorem forall_get?_ofTests
    {P : CompiledTest → Prop} {tests : List (String × CompiledTest)}
    (hmerge : ∀ existing incoming, P existing → P incoming → P (existing.merge incoming))
    (h : ∀ test ∈ tests, P test.2)
    {path : String} {test : CompiledTest}
    (htest : (ofTests tests).get? path = some test) :
    P test := by
  -- a test of the table that lacks the property was made from an inserted one that lacks it
  by_contra hnot
  have hsome : ∀ existing incoming : CompiledTest, ¬P (existing.merge incoming) →
      ¬P existing ∨ ¬P incoming := by
    intro existing incoming hmerged
    by_contra hboth
    obtain ⟨hexisting, hincoming⟩ := not_or.1 hboth
    exact hmerged (hmerge _ _ (not_not.1 hexisting) (not_not.1 hincoming))
  obtain ⟨inserted, hmem, -, hinserted⟩ :=
    exists_mem_of_holdsAt (P := fun test => ¬P test) hsome ⟨test, htest, hnot⟩
  exact hinserted (h inserted hmem)

end Table
end Probe

namespace Build

open Probe (CompiledTest Table TestCode)
open Reporting (Gives Yields)

/-- A test is run in the given scopes, in the given order or sorted. -/
def InScopes
    (exposure : List String)
    (test : CompiledTest) : Prop :=
  test.exposure = exposure ∨ test.exposure = Table.sorted exposure

/-- A table has a test at every path of some probes and nowhere else.  The first probe at a path
gives the code unless the catalog does, and all tests are run in the given scopes. -/
structure IsTableOf
    (catalog : Catalog)
    (exposure : List String)
    (probes : List (String × TestCode))
    (table : Table) : Prop where
  mem_keys_iff : ∀ path, path ∈ table.keys ↔ path ∈ probes.map Prod.fst
  exists_code : ∀ path test, table.get? path = some test → ∃ code custom,
    (probes.find? fun probe => probe.1 = path) = some (path, code) ∧
      Reporting.result? (catalog.test path) = some custom ∧
      test.code = custom.test.getD code.compile
  inScopes : ∀ path test, table.get? path = some test → InScopes exposure test

section Probes

variable
  {catalog : Catalog} {exposure : List String} {probes : List (String × TestCode)} {table : Table}
  {path : String} {test : CompiledTest}

theorem InScopes.mem_iff
    (h : InScopes exposure test)
    (scope : String) :
    scope ∈ test.exposure ↔ scope ∈ exposure := by
  rcases h with h | h <;> simp [h]

theorem InScopes.merge
    {existing incoming : CompiledTest}
    (hexisting : InScopes exposure existing)
    (hincoming : InScopes exposure incoming) :
    InScopes exposure (existing.merge incoming) := by
  right
  have hmem : ∀ scope ∈ incoming.exposure, scope ∈ existing.exposure := by
    intro scope hscope
    rwa [hexisting.mem_iff, ← hincoming.mem_iff]
  change Probe.mergeExposure existing.exposure incoming.exposure = _
  rw [Table.mergeExposure_of_subset hmem]
  rcases hexisting with h | h <;> simp [h]

/-- A single scope is the same in any order. -/
theorem InScopes.eq_singleton
    {scope : String}
    (h : InScopes [scope] test) :
    test.exposure = [scope] := by
  rcases h with h | h
  · exact h
  · rw [h, Table.sorted, List.mergeSort_singleton]

/-- At a path of some probes the first one is found. -/
theorem exists_find?_path
    (h : path ∈ probes.map Prod.fst) :
    ∃ code, (probes.find? fun probe => probe.1 = path) = some (path, code) := by
  obtain ⟨probe, hprobe, heq⟩ := List.mem_map.1 h
  have hsome : (probes.find? fun probe => probe.1 = path).isSome :=
    List.find?_isSome.2 ⟨probe, hprobe, decide_eq_true heq⟩
  obtain ⟨⟨place, code⟩, hfound⟩ := Option.isSome_iff_exists.1 hsome
  obtain rfl : place = path := by
    simpa using List.find?_some hfound
  exact ⟨code, hfound⟩

/-- A test is made of what the catalog says about its path. -/
theorem exists_of_yields_testAt
    {code : TestCode} {made : String × CompiledTest}
    (h : Yields (testAt catalog exposure path code) made) :
    ∃ custom, Reporting.result? (catalog.test path) = some custom ∧ made.1 = path ∧
      made.2.code = custom.test.getD code.compile ∧ made.2.exposure = exposure := by
  obtain ⟨custom, hcustom, h⟩ := Reporting.yields_bind h
  rw [← Catalog.eq_of_yields_pure h]
  refine ⟨custom, (Catalog.holdsOfAnswers_orderly.test path).result?_of_yields hcustom, rfl, ?_,
    rfl⟩
  cases custom.test <;> rfl

theorem isTableOf_of_gives
    {tests : List (String × CompiledTest)} {before after : Diagnostics}
    (h : Gives (probes.mapM fun item => testAt catalog exposure item.1 item.2) before tests after) :
    IsTableOf catalog exposure probes (Table.ofTests tests) := by
  refine ⟨?_, ?_, ?_⟩
  · intro path
    have hpaths : tests.map Prod.fst = probes.map Prod.fst := by
      refine h.map_eq_of_mapM fun probe made hmade => ?_
      obtain ⟨custom, -, hpath, -⟩ := exists_of_yields_testAt hmade
      exact hpath
    rw [Table.mem_keys_ofTests_iff, hpaths]
  · intro path test htest
    have hcode := Table.code_get?_ofTests tests path
    rw [htest, Option.map_some, eq_comm, Option.map_eq_some_iff] at hcode
    obtain ⟨made, hmade, hcode⟩ := hcode
    have hsame : ∀ (probe : String × TestCode) (made : String × CompiledTest),
        Yields (testAt catalog exposure probe.1 probe.2) made →
          decide (probe.1 = path) = decide (made.1 = path) := by
      intro probe made hyields
      obtain ⟨custom, -, hpath, -⟩ := exists_of_yields_testAt hyields
      rw [hpath]
    have hfirst := rel_find?_forall₂ h.forall₂_of_mapM hsame
    rw [hmade] at hfirst
    generalize hprobe : (probes.find? fun probe => probe.1 = path) = found at hfirst
    cases hfirst with
    | @some probe _ hyields =>
        obtain ⟨custom, hcustom, -, htext, -⟩ := exists_of_yields_testAt hyields
        obtain rfl : probe.1 = path := by
          simpa using List.find?_some hprobe
        exact ⟨probe.2, custom, rfl, hcustom, hcode.symm.trans htext⟩
  · intro path test htest
    refine Table.forall_get?_ofTests (fun _ _ => InScopes.merge) (fun made hmade => ?_) htest
    obtain ⟨probe, -, hyields⟩ := h.yields_of_mapM.1 made hmade
    obtain ⟨custom, -, -, -, hexposure⟩ := exists_of_yields_testAt hyields
    exact Or.inl hexposure

end Probes

end Build
end FeatureProbes
