import FeatureProbes.Proofs.Build.Exposure
import FeatureProbes.Proofs.Catalog.Calls

/-!
# The tests of definitions one by one

Every test that is made for a definition comes from one question to the catalog: what it says of the
definition, of one of its probes, or of a test that an author wrote below it.

Where definitions have different names without dots, the paths below one of them are not those of
another one.  Then the code at the path of a member is that of its first probe.
-/

namespace FeatureProbes
namespace Build

open Catalog (Override interfacePath memberPath)
open Probe (CompiledTest Table TestCode)
open Reporting (Gives Yields)
open WebIdl (Definition GlobalMember Merged)

/-- Definitions have different names, and these have no dots. -/
structure PlainNames (definitions : List Definition) : Prop where
  distinct : (definitions.map Definition.name).Nodup
  plain : ∀ definition ∈ definitions, '.' ∉ definition.name.toList

section Lists

variable {α β : Type} {R : α → β → Prop}

/-- Of related rows the first members that are looked for are related. -/
theorem rel_find?_forall₂
    {p : α → Bool} {q : β → Bool} {items : List α} {values : List β}
    (h : List.Forall₂ R items values)
    (hpq : ∀ item value, R item value → p item = q value) :
    Option.Rel R (items.find? p) (values.find? q) := by
  induction h with
  | nil =>
      exact .none
  | @cons item value items values hhead htail ih =>
      rw [List.find?_cons, List.find?_cons, ← hpq item value hhead]
      cases p item with
      | true =>
          exact .some hhead
      | false =>
          exact ih

theorem find?_flatten_eq_none
    {γ : Type} {S : α → List γ → Prop} {q : γ → Bool} {items : List α} {rows : List (List γ)}
    (h : List.Forall₂ S items rows)
    (hnone : ∀ item ∈ items, ∀ row, S item row → row.find? q = none) :
    rows.flatten.find? q = none := by
  induction h with
  | nil =>
      rfl
  | @cons item row items rows hhead _ ih =>
      rw [List.flatten_cons, List.find?_append, hnone item List.mem_cons_self row hhead,
        Option.none_or]
      exact ih fun next hnext => hnone next (List.mem_cons_of_mem _ hnext)

/-- If rows belong to different items, and what is looked for can only be in the row of one item,
then looking for it in all rows is looking for it in the row of this item. -/
theorem exists_find?_flatten
    {γ : Type} {S : α → List γ → Prop} {q : γ → Bool} {items : List α} {rows : List (List γ)}
    {item : α}
    (h : List.Forall₂ S items rows)
    (hdistinct : items.Nodup)
    (hmem : item ∈ items)
    (hothers : ∀ other ∈ items, other ≠ item → ∀ row, S other row → row.find? q = none) :
    ∃ row, S item row ∧ rows.flatten.find? q = row.find? q := by
  induction h with
  | nil =>
      cases hmem
  | @cons head row items rows hhead htail ih =>
      obtain ⟨hnew, hdistinct⟩ := List.nodup_cons.1 hdistinct
      rw [List.flatten_cons, List.find?_append]
      rcases List.mem_cons.1 hmem with rfl | hmem
      · refine ⟨row, hhead, ?_⟩
        rw [find?_flatten_eq_none htail, Option.or_none]
        intro next hnext
        exact hothers next (List.mem_cons_of_mem _ hnext) (ne_of_mem_of_not_mem hnext hnew)
      · rw [hothers head List.mem_cons_self (ne_of_mem_of_not_mem hmem hnew).symm row hhead,
          Option.none_or]
        exact ih hdistinct hmem fun next hnext => hothers next (List.mem_cons_of_mem _ hnext)

end Lists

section Entries

variable
  {catalog : Catalog} {valid exposure : NameSet} {definition : Definition} {merged : Merged}

/-- A test is made of what the catalog says about a probe. -/
def MadeFor
    (catalog : Catalog)
    (definition : Definition)
    (probe : ProbeMember)
    (test : String × CompiledTest) : Prop :=
  ∃ custom scopes,
    Yields (catalog.memberTest definition.name probe.name probe.kind) custom ∧
    test = entry (memberPath definition.name probe.name) (defaultCode definition probe) custom
      scopes

theorem madeFor_of_yields_memberEntry
    {probe : ProbeMember} {test : String × CompiledTest}
    (h : Yields (memberEntry catalog valid definition exposure probe) test) :
    MadeFor catalog definition probe test := by
  obtain ⟨narrowed, -, h⟩ := Reporting.yields_bind h
  obtain ⟨custom, hcustom, h⟩ := Reporting.yields_bind h
  obtain rfl := Catalog.eq_of_yields_pure h
  exact ⟨custom, _, hcustom, rfl⟩

/-- The tests that authors wrote come from the catalog, with their paths and resources. -/
theorem exists_of_yields_subtestEntries
    {tests : List (String × CompiledTest)}
    (h : Yields (subtestEntries catalog definition exposure) tests) :
    ∃ subtests,
      Yields
        (catalog.subtests definition.name
          (.ofNames ((probesOf definition).map ProbeMember.name)))
        subtests ∧
      tests = subtests.entries.filterMap fun item => item.2.test.map fun code =>
        entry (memberPath definition.name item.1) (.raw code) item.2 exposure.keys := by
  obtain ⟨subtests, hsubtests, h⟩ := Reporting.yields_bind h
  exact ⟨subtests, hsubtests, (Catalog.eq_of_yields_pure h).symm⟩

/-- The tests of a definition are its own one, those of its probes in order, and those that authors
wrote. -/
theorem exists_of_yields_definitionEntries
    {tests : List (String × CompiledTest)}
    (h : Yields (definitionEntries catalog valid definition) tests) :
    ∃ exposure custom members subtests,
      Yields (catalog.interfaceTest definition.name) custom ∧
      List.Forall₂ (MadeFor catalog definition) (probesOf definition) members ∧
      Yields (subtestEntries catalog definition exposure) subtests ∧
      tests =
        entry (interfacePath definition.name) (.member (.of "self" definition.name)) custom
            exposure.keys ::
          members ++ subtests := by
  obtain ⟨exposure, -, h⟩ := Reporting.yields_bind h
  obtain ⟨custom, hcustom, h⟩ := Reporting.yields_bind h
  obtain ⟨members, ⟨before, after, hmembers⟩, h⟩ := Reporting.yields_bind h
  obtain ⟨subtests, hsubtests, h⟩ := Reporting.yields_bind h
  exact ⟨exposure, custom, members, subtests, hcustom, 
    hmembers.forall₂_of_mapM.imp fun _ _ => madeFor_of_yields_memberEntry, hsubtests,
    (Catalog.eq_of_yields_pure h).symm⟩

/-- The test of a global member asks the catalog about an interface of the member's name. -/
theorem exists_of_yields_globalEntry
    {item : GlobalMember} {tests : List (String × CompiledTest)}
    (h : Yields (globalEntry catalog valid merged item) tests) :
    ∀ test ∈ tests, ∃ name custom narrowed,
      Yields (catalog.interfaceTest name) custom ∧
      test = entry (interfacePath name) (.member (.of "self" name)) custom narrowed := by
  intro test htest
  unfold globalEntry at h
  cases hname : item.member.name with
  | none =>
      simp only [hname] at h
      rw [← Catalog.eq_of_yields_pure h] at htest
      cases htest
  | some name =>
      simp only [hname] at h
      split at h
      · rw [← Catalog.eq_of_yields_pure h] at htest
        cases htest
      · obtain ⟨exposure, -, h⟩ := Reporting.yields_bind h
        obtain ⟨narrowed, -, h⟩ := Reporting.yields_bind h
        obtain ⟨custom, hcustom, h⟩ := Reporting.yields_bind h
        rw [← Catalog.eq_of_yields_pure h] at htest
        exact ⟨name, custom, _, hcustom, List.mem_singleton.1 htest⟩

/-- The table has the tests of all definitions in their order, and behind them those of the global
members. -/
theorem exists_of_gives_apiTests
    {before after : Diagnostics} {table : Table}
    (h : Gives (apiTests merged valid catalog) before table after) :
    ∃ definitions globals,
      List.Forall₂
        (fun definition tests => Yields (definitionEntries catalog valid definition) tests)
        (merged.definitions.filter isTested) definitions ∧
      List.Forall₂ (fun item tests => Yields (globalEntry catalog valid merged item) tests)
        merged.globals globals ∧
      table = Table.ofTests (definitions.flatten ++ globals.flatten) := by
  obtain ⟨definitions, first, hdefinitions, h⟩ := Reporting.gives_bind_iff.1 h
  obtain ⟨globals, second, hglobals, h⟩ := Reporting.gives_bind_iff.1 h
  obtain ⟨rfl, -⟩ := Reporting.gives_pure_iff.1 h
  exact ⟨definitions, globals, hdefinitions.forall₂_of_mapM, hglobals.forall₂_of_mapM, rfl⟩

/-! ## Paths of definitions -/

/-- A path is that of a definition, or it is below it. -/
def IsPathOf
    (definition : Definition)
    (path : String) : Prop :=
  path = interfacePath definition.name ∨ ∃ below, path = memberPath definition.name below

theorem isPathOf_of_yields_definitionEntries
    {tests : List (String × CompiledTest)}
    (h : Yields (definitionEntries catalog valid definition) tests) :
    ∀ test ∈ tests, IsPathOf definition test.1 := by
  obtain ⟨exposure, custom, members, subtests, -, hmembers, hsubtests, rfl⟩ :=
    exists_of_yields_definitionEntries h
  intro test htest
  rcases List.mem_cons.1 htest with rfl | htest
  · exact Or.inl rfl
  · rcases List.mem_append.1 htest with htest | htest
    · obtain ⟨probe, -, made, scopes, -, rfl⟩ :=
        (Reporting.exists_of_forall₂ hmembers).1 test htest
      exact Or.inr ⟨probe.name, rfl⟩
    · obtain ⟨found, -, rfl⟩ := exists_of_yields_subtestEntries hsubtests
      obtain ⟨item, -, hmade⟩ := List.mem_filterMap.1 htest
      obtain ⟨code, -, rfl⟩ := Option.map_eq_some_iff.1 hmade
      exact Or.inr ⟨item.1, rfl⟩

/-- No path is one of two definitions with different names without dots. -/
theorem IsPathOf.name_eq
    {other : Definition} {path : String}
    (hplain : '.' ∉ definition.name.toList)
    (hplain' : '.' ∉ other.name.toList)
    (h : IsPathOf definition path)
    (h' : IsPathOf other path) :
    definition.name = other.name := by
  rcases h with rfl | ⟨below, rfl⟩
  · rcases h' with h' | ⟨below', h'⟩
    · exact apiPath_inj.1 h'
    · exact absurd h' (apiPath_ne_memberPath hplain)
  · rcases h' with h' | ⟨below', h'⟩
    · exact absurd h'.symm (apiPath_ne_memberPath hplain')
    · exact ((memberPath_inj hplain hplain').1 h').1

/-- The code at a path of a definition is that of the first of the definition's tests with this
path. -/
theorem exists_tests_of_isPathOf
    {before after : Diagnostics} {table : Table} {path : String}
    (hnames : PlainNames merged.definitions)
    (h : Gives (apiTests merged valid catalog) before table after)
    (hmem : definition ∈ merged.definitions)
    (htested : isTested definition)
    (hpath : IsPathOf definition path) :
    ∃ tests, Yields (definitionEntries catalog valid definition) tests ∧
      ∀ item, tests.find? (fun test => test.1 = path) = some item →
        ∃ test, table.get? path = some test ∧ test.code = item.2.code := by
  obtain ⟨definitions, globals, hdefinitions, -, rfl⟩ := exists_of_gives_apiTests h
  have hothers : ∀ other ∈ merged.definitions.filter isTested, other ≠ definition →
      ∀ row, Yields (definitionEntries catalog valid other) row →
        row.find? (fun test => test.1 = path) = none := by
    intro other hother hne row hrow
    rw [List.find?_eq_none]
    intro test htest hsame
    have hotherMem := List.mem_of_mem_filter hother
    have hname := (isPathOf_of_yields_definitionEntries hrow test htest).name_eq
      (hnames.plain other hotherMem) (hnames.plain definition hmem)
      ((of_decide_eq_true hsame).symm ▸ hpath)
    exact hne (List.inj_on_of_nodup_map hnames.distinct hotherMem hmem hname)
  obtain ⟨tests, htests, hfind⟩ :=
    exists_find?_flatten hdefinitions (hnames.distinct.of_map.filter _)
      (List.mem_filter.2 ⟨hmem, htested⟩) hothers
  -- Global members come behind all definitions, so their tests cannot be the first ones here.
  refine ⟨tests, htests, fun item hitem => ?_⟩
  have hcode := Table.code_get?_ofTests (definitions.flatten ++ globals.flatten) path
  rw [List.find?_append, hfind, hitem, Option.some_or, Option.map_some,
    Option.map_eq_some_iff] at hcode
  exact hcode

/-- The code at the path of a definition is made of what the catalog says about it. -/
theorem exists_interfaceTest
    {before after : Diagnostics} {table : Table}
    (hnames : PlainNames merged.definitions)
    (h : Gives (apiTests merged valid catalog) before table after)
    (hmem : definition ∈ merged.definitions)
    (htested : isTested definition) :
    ∃ test custom, table.get? (interfacePath definition.name) = some test ∧
      Yields (catalog.interfaceTest definition.name) custom ∧
      test.code =
        ((custom.test.map TestCode.raw).getD (.member (.of "self" definition.name))).compile := by
  obtain ⟨tests, htests, hfirst⟩ := exists_tests_of_isPathOf hnames h hmem htested (Or.inl rfl)
  obtain ⟨exposure, custom, members, subtests, hcustom, -, -, rfl⟩ :=
    exists_of_yields_definitionEntries htests
  obtain ⟨test, htest, hcode⟩ := hfirst _ (List.find?_cons_of_pos (by simp [entry]))
  exact ⟨test, custom, htest, hcustom, hcode⟩

/-- The code at the path of a member is made of what the catalog says about its first probe. -/
theorem exists_memberTest
    {before after : Diagnostics} {table : Table} {name : String} {probe : ProbeMember}
    (hnames : PlainNames merged.definitions)
    (h : Gives (apiTests merged valid catalog) before table after)
    (hmem : definition ∈ merged.definitions)
    (htested : isTested definition)
    (hprobe : (probesOf definition).find? (fun probe => probe.name = name) = some probe) :
    ∃ test custom, table.get? (memberPath definition.name name) = some test ∧
      Yields (catalog.memberTest definition.name name probe.kind) custom ∧
      test.code = ((custom.test.map TestCode.raw).getD (defaultCode definition probe)).compile := by
  obtain ⟨tests, htests, hfirst⟩ :=
    exists_tests_of_isPathOf hnames h hmem htested (Or.inr ⟨name, rfl⟩)
  obtain ⟨exposure, custom, members, subtests, -, hmembers, -, rfl⟩ :=
    exists_of_yields_definitionEntries htests
  have hplain := hnames.plain definition hmem
  have hsame : ∀ probe test, MadeFor catalog definition probe test →
      decide (probe.name = name) = decide (test.1 = memberPath definition.name name) := by
    rintro probe test ⟨custom, scopes, -, rfl⟩
    exact decide_eq_decide.2 ((memberPath_inj hplain hplain).trans (and_iff_right rfl)).symm
  have hrel := rel_find?_forall₂ hmembers hsame
  rw [hprobe] at hrel
  generalize hfound : members.find? _ = found at hrel
  cases hrel with
  | some hmade =>
      obtain ⟨custom, scopes, hcustom, rfl⟩ := hmade
      obtain rfl : probe.name = name := by
        simpa using List.find?_some hprobe
      have hown : interfacePath definition.name ≠ memberPath definition.name probe.name :=
        apiPath_ne_memberPath hplain
      rw [List.cons_append, List.find?_cons_of_neg (by simp [entry, hown]),
        List.find?_append, hfound, Option.some_or] at hfirst
      obtain ⟨test, htest, hcode⟩ := hfirst _ rfl
      exact ⟨test, custom, htest, hcustom, hcode⟩

end Entries

end Build
end FeatureProbes
