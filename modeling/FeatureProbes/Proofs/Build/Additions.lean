import FeatureProbes.Proofs.Build.Resources
import FeatureProbes.Proofs.Build.Steps
import FeatureProbes.Proofs.Catalog.Additional
import Mathlib.Data.List.Permutation

/-!
# Tables with and without additional tests

Without additional tests a catalog leads to the same tests but for those at the paths of additional
tests.  There an additional test is merged with what is made without it: the code stays, and the
scopes of the definition are added, so a member that is exposed in fewer scopes than its interface
loses its restriction.
-/

namespace FeatureProbes
namespace Build

open Catalog (HoldsOfAnswers IsAdditional Override interfacePath memberPath)
open Probe (CompiledTest Table TestCode)
open Reporting (Gives Yields)
open WebIdl (Definition GlobalMember Member Merged)

/-! ## Lists with further items -/

section Lists

variable {α β : Type} {P : α → Prop} {first second : List α}

/-- A list is extended by further items of some sort, which may stand anywhere. -/
inductive ExtendedBy (P : α → Prop) : List α → List α → Prop where
  | nil :
      ExtendedBy P [] []
  | keep {first second : List α}
      (item : α)
      (h : ExtendedBy P first second) :
      ExtendedBy P (item :: first) (item :: second)
  | add {first second : List α} {item : α}
      (hitem : P item)
      (h : ExtendedBy P first second) :
      ExtendedBy P first (item :: second)

theorem extendedBy_refl
    (items : List α) :
    ExtendedBy P items items := by
  induction items with
  | nil =>
      exact .nil
  | cons item items ih =>
      exact .keep item ih

theorem ExtendedBy.mono
    {Q : α → Prop}
    (h : ExtendedBy P first second)
    (hPQ : ∀ item, P item → Q item) :
    ExtendedBy Q first second := by
  induction h with
  | nil =>
      exact .nil
  | keep item _ ih =>
      exact .keep item ih
  | add hitem _ ih =>
      exact .add (hPQ _ hitem) ih

theorem ExtendedBy.append
    {first' second' : List α}
    (h : ExtendedBy P first second)
    (h' : ExtendedBy P first' second') :
    ExtendedBy P (first ++ first') (second ++ second') := by
  induction h with
  | nil =>
      exact h'
  | keep item _ ih =>
      exact .keep item ih
  | add hitem _ ih =>
      exact .add hitem ih

theorem ExtendedBy.flatten
    {rows rows' : List (List α)}
    (h : List.Forall₂ (ExtendedBy P) rows rows') :
    ExtendedBy P rows.flatten rows'.flatten := by
  induction h with
  | nil =>
      exact .nil
  | cons hrow _ ih =>
      exact hrow.append ih

/-- A list is its items with some property, extended by the others. -/
theorem extendedBy_filter
    {q : α → Bool} {items : List α}
    (h : ∀ item ∈ items, ¬q item → P item) :
    ExtendedBy P (items.filter q) items := by
  induction items with
  | nil =>
      exact .nil
  | cons item items ih =>
      have hrest := ih fun next hnext => h next (List.mem_cons_of_mem item hnext)
      rw [List.filter_cons]
      split
      · exact .keep item hrest
      · rename_i hitem
        exact .add (h item List.mem_cons_self hitem) hrest

theorem ExtendedBy.filterMap
    {Q : β → Prop} {f : α → Option β}
    (h : ExtendedBy P first second)
    (hf : ∀ item value, P item → f item = some value → Q value) :
    ExtendedBy Q (first.filterMap f) (second.filterMap f) := by
  induction h with
  | nil =>
      exact .nil
  | keep item _ ih =>
      rw [List.filterMap_cons, List.filterMap_cons]
      cases f item with
      | none =>
          exact ih
      | some value =>
          exact .keep value ih
  | @add _ _ item hitem _ ih =>
      rw [List.filterMap_cons]
      cases hvalue : f item with
      | none =>
          exact ih
      | some value =>
          exact .add (hf item value hitem hvalue) ih

theorem ExtendedBy.subset
    (h : ExtendedBy P first second) :
    first ⊆ second := by
  induction h with
  | nil =>
      exact List.Subset.refl []
  | keep item _ ih =>
      exact List.cons_subset_cons item ih
  | add _ _ ih =>
      exact List.subset_cons_of_subset _ ih

theorem ExtendedBy.mem_or
    {item : α}
    (h : ExtendedBy P first second)
    (hitem : item ∈ second) :
    item ∈ first ∨ P item := by
  induction h with
  | nil =>
      cases hitem
  | keep head _ ih =>
      rcases List.mem_cons.1 hitem with rfl | hitem
      · exact Or.inl List.mem_cons_self
      · exact (ih hitem).imp_left (List.mem_cons_of_mem head)
  | add hhead _ ih =>
      rcases List.mem_cons.1 hitem with rfl | hitem
      · exact Or.inr hhead
      · exact ih hitem

/-- Among items of another sort there are no further ones. -/
theorem ExtendedBy.filter_eq
    {q : α → Bool}
    (h : ExtendedBy P first second)
    (hq : ∀ item, P item → q item = false) :
    first.filter q = second.filter q := by
  induction h with
  | nil =>
      rfl
  | keep item _ ih =>
      rw [List.filter_cons, List.filter_cons, ih]
  | add hitem _ ih =>
      rw [List.filter_cons, hq _ hitem, ih]
      rfl

/-- Rows that stand for the same items are related if what stands for one item is. -/
theorem forall₂_of_common
    {γ : Type} {R : γ → α → Prop} {S : γ → β → Prop} {T : α → β → Prop}
    {items : List γ} {values : List α} {values' : List β}
    (h : List.Forall₂ R items values)
    (h' : List.Forall₂ S items values')
    (hT : ∀ item ∈ items, ∀ value value', R item value → S item value' → T value value') :
    List.Forall₂ T values values' := by
  induction h generalizing values' with
  | nil =>
      cases h'
      exact .nil
  | cons hhead _ ih =>
      cases h' with
      | cons hhead' htail' =>
          exact .cons (hT _ List.mem_cons_self _ _ hhead hhead')
            (ih htail' fun item hitem => hT item (List.mem_cons_of_mem _ hitem))

end Lists

/-! ## Additions -/

/-- Below a tested definition an author wrote an additional test at a path, which needs resources of
some names. -/
inductive Adds
    (merged : Merged)
    (catalog : Catalog) :
    String → Definition → List String → Prop where
  | mk {definition : Definition} {node : Catalog.Node} {item : Catalog.Subtest}
      (hmem : definition ∈ merged.definitions)
      (htested : isTested definition)
      (hnode : catalog.node? (interfacePath definition.name) = some node)
      (hitem : IsAdditional node item) :
      Adds merged catalog (memberPath definition.name item.path) definition
        (node.resources ++ item.owner.resources)

/-- A test has the path of an additional one, and it carries no more than this one needs. -/
def IsAddition
    (merged : Merged)
    (catalog : Catalog)
    (test : String × CompiledTest) : Prop :=
  ∃ definition names, Adds merged catalog test.1 definition names ∧
    ∀ name resource, test.2.Carries name resource → name ∈ names

section Additions

variable {merged : Merged} {valid : NameSet} {catalog : Catalog} {definition : Definition}

theorem authored_iff
    {below : String} :
    Authored catalog definition below ↔
      Authored catalog.withoutAdditional definition below ∨
        ∃ node item, catalog.node? (interfacePath definition.name) = some node ∧
          IsAdditional node item ∧ item.path = below := by
  constructor
  · rintro ⟨node, hnode, item, hitem, rfl⟩
    rcases Catalog.mem_subtestsOf_iff.1 hitem with hadditional | hown
    · exact Or.inr ⟨node, item, hnode, hadditional, rfl⟩
    · refine Or.inl ⟨node.withoutAdditional, ?_, ?_⟩
      · rw [Catalog.node?_withoutAdditional, hnode]
        rfl
      · exact Catalog.exists_mem_subtestsOf_withoutAdditional_iff.2 ⟨item, hown, rfl⟩
  · rintro (⟨node', hnode', hitem⟩ | ⟨node, item, hnode, hadditional, rfl⟩)
    · obtain ⟨node, hnode, rfl⟩ := Option.map_eq_some_iff.1
        ((Catalog.node?_withoutAdditional _).symm.trans hnode')
      obtain ⟨item, hown, rfl⟩ := Catalog.exists_mem_subtestsOf_withoutAdditional_iff.1 hitem
      exact ⟨node, hnode, item, Catalog.mem_subtestsOf_iff.2 (Or.inr hown), rfl⟩
    · exact ⟨node, hnode, item, Catalog.mem_subtestsOf_iff.2 (Or.inl hadditional), rfl⟩

/-- What is planned is what is planned without additional tests, and for each additional test its
path in the scopes of its definition. -/
theorem planned_iff
    {path : String} {scopes : String → Prop} :
    Planned merged valid catalog path scopes ↔
      Planned merged valid catalog.withoutAdditional path scopes ∨
        ∃ definition names, Adds merged catalog path definition names ∧
          definition.ExposedIn valid = scopes := by
  constructor
  · intro h
    cases h with
    | definition hmem htested =>
        exact Or.inl (.definition hmem htested)
    | probe hmem htested hprobe =>
        exact Or.inl (.probe hmem htested hprobe)
    | authored hmem htested hauthored =>
        rcases authored_iff.1 hauthored with hauthored | ⟨node, item, hnode, hitem, rfl⟩
        · exact Or.inl (.authored hmem htested hauthored)
        · exact Or.inr ⟨_, _, .mk hmem htested hnode hitem, rfl⟩
    | globalMember hitem hname hkind =>
        exact Or.inl (.globalMember hitem hname hkind)
  · rintro (h | ⟨definition, names, hadds, rfl⟩)
    · cases h with
      | definition hmem htested =>
          exact .definition hmem htested
      | probe hmem htested hprobe =>
          exact .probe hmem htested hprobe
      | authored hmem htested hauthored =>
          exact .authored hmem htested (authored_iff.2 (Or.inl hauthored))
      | globalMember hitem hname hkind =>
          exact .globalMember hitem hname hkind
    · obtain ⟨hmem, htested, hnode, hitem⟩ := hadds
      exact .authored hmem htested (authored_iff.2 (Or.inr ⟨_, _, hnode, hitem, rfl⟩))

end Additions

/-! ## Tests with and without additional ones -/

section Tests

variable
  {merged : Merged} {valid exposure : NameSet} {catalog : Catalog} {definition : Definition}
  {tests tests' : List (String × CompiledTest)}

theorem memberEntry_withoutAdditional :
    memberEntry catalog.withoutAdditional = memberEntry catalog := by
  funext valid definition exposure member
  unfold memberEntry
  rw [Catalog.memberTest_withoutAdditional]

theorem globalEntry_withoutAdditional :
    globalEntry catalog.withoutAdditional = globalEntry catalog := by
  funext valid merged item
  unfold globalEntry
  rw [Catalog.interfaceTest_withoutAdditional]

/-- The tests that authors wrote below a definition are those that they wrote apart from additional
ones, and additional ones at paths that the others do not have. -/
theorem extendedBy_subtestEntries
    (hordered : catalog.IsOrdered)
    (hmem : definition ∈ merged.definitions)
    (htested : isTested definition)
    (h : Yields (subtestEntries catalog definition exposure) tests)
    (h' : Yields (subtestEntries catalog.withoutAdditional definition exposure) tests') :
    ExtendedBy (fun test => IsAddition merged catalog test ∧ test.1 ∉ tests'.map Prod.fst)
      tests' tests := by
  obtain ⟨results, hresults, rfl⟩ := exists_of_yields_subtestEntries h
  obtain ⟨results', hresults', rfl⟩ := exists_of_yields_subtestEntries h'
  have hentries : ExtendedBy
      (fun entry => entry ∈ results.entries ∧ entry.1 ∉ results'.keys)
      results'.entries results.entries := by
    rw [SortedMap.entries_eq_filter fun _ _ =>
      Catalog.get?_of_withoutAdditional hordered hresults hresults']
    refine extendedBy_filter fun entry hentry hnew => ⟨hentry, ?_⟩
    rwa [SortedMap.contains_iff] at hnew
  refine hentries.filterMap ?_
  rintro source test ⟨hsource, hnew⟩ hmade
  obtain ⟨code, -, rfl⟩ := Option.map_eq_some_iff.1 hmade
  obtain ⟨node, item, hnode, hitem, hpath, hsupplies⟩ :=
    (Catalog.mem_keys_or_isAdditional hresults hresults' hsource).resolve_left hnew
  constructor
  · refine ⟨definition, node.resources ++ item.owner.resources, ?_, ?_⟩
    · rw [entry, ← hpath]
      exact .mk hmem htested hnode hitem
    · intro name resource hcarries
      have hget := carries_entry_iff.1 hcarries
      exact hsupplies.bounded name (SortedMap.mem_keys_iff.2 (Option.isSome_of_eq_some hget))
  · intro hother
    obtain ⟨test, htest, hsame⟩ := List.mem_map.1 hother
    obtain ⟨other, hotherMem, hmade⟩ := List.mem_filterMap.1 htest
    obtain ⟨_, -, rfl⟩ := Option.map_eq_some_iff.1 hmade
    rw [entry, entry, memberPath, memberPath, String.append_right_inj] at hsame
    exact hnew (hsame ▸ List.mem_map_of_mem hotherMem)

/-- The tests of a definition with additional tests begin like those without. -/
theorem exists_front_of_yields_definitionEntries
    (h : Yields (definitionEntries catalog valid definition) tests)
    (h' : Yields (definitionEntries catalog.withoutAdditional valid definition) tests') :
    ∃ exposure front subtests subtests',
      Yields (subtestEntries catalog definition exposure) subtests ∧
      Yields (subtestEntries catalog.withoutAdditional definition exposure) subtests' ∧
      tests = front ++ subtests ∧ tests' = front ++ subtests' := by
  have horderly := @Catalog.holdsOfAnswers_orderly catalog
  obtain ⟨exposure, hexposure, h⟩ := Reporting.yields_bind h
  obtain ⟨custom, hcustom, h⟩ := Reporting.yields_bind h
  obtain ⟨members, hmembers, h⟩ := Reporting.yields_bind h
  obtain ⟨subtests, hsubtests, h⟩ := Reporting.yields_bind h
  obtain ⟨exposure', hexposure', h'⟩ := Reporting.yields_bind h'
  obtain ⟨custom', hcustom', h'⟩ := Reporting.yields_bind h'
  obtain ⟨members', hmembers', h'⟩ := Reporting.yields_bind h'
  obtain ⟨subtests', hsubtests', h'⟩ := Reporting.yields_bind h'
  rw [Catalog.interfaceTest_withoutAdditional] at hcustom'
  rw [memberEntry_withoutAdditional] at hmembers'
  cases (Catalog.eq_ok_of_yields_ofExcept hexposure).symm.trans
    (Catalog.eq_ok_of_yields_ofExcept hexposure')
  cases (horderly.interfaceTest _).yields_unique hcustom hcustom'
  have hprobes : Reporting.Orderly (fun _ => True)
      ((probesOf definition).mapM (memberEntry catalog valid definition exposure)) :=
    horderly.mapM fun member _ =>
      holdsOf_memberEntry horderly (fun _ _ _ _ => Reporting.orderly_ofExcept _) member
  cases hprobes.yields_unique hmembers hmembers'
  exact ⟨exposure, _ :: members, subtests, subtests', hsubtests, hsubtests',
    (Catalog.eq_of_yields_pure h).symm, (Catalog.eq_of_yields_pure h').symm⟩

theorem extendedBy_definitionEntries
    (hordered : catalog.IsOrdered)
    (hmem : definition ∈ merged.definitions)
    (htested : isTested definition)
    (h : Yields (definitionEntries catalog valid definition) tests)
    (h' : Yields (definitionEntries catalog.withoutAdditional valid definition) tests') :
    ExtendedBy (IsAddition merged catalog) tests' tests := by
  obtain ⟨exposure, front, subtests, subtests', hsubtests, hsubtests', rfl, rfl⟩ :=
    exists_front_of_yields_definitionEntries h h'
  exact (extendedBy_refl front).append
    ((extendedBy_subtestEntries hordered hmem htested hsubtests hsubtests').mono
      fun _ htest => htest.1)

/-- The first test of a definition at a path is the same with additional tests. -/
theorem find?_definitionEntries
    {path : String} {test : String × CompiledTest}
    (hordered : catalog.IsOrdered)
    (hmem : definition ∈ merged.definitions)
    (htested : isTested definition)
    (h : Yields (definitionEntries catalog valid definition) tests)
    (h' : Yields (definitionEntries catalog.withoutAdditional valid definition) tests')
    (hfind : tests'.find? (fun test => test.1 = path) = some test) :
    tests.find? (fun test => test.1 = path) = some test := by
  obtain ⟨exposure, front, subtests, subtests', hsubtests, hsubtests', rfl, rfl⟩ :=
    exists_front_of_yields_definitionEntries h h'
  rw [List.find?_append] at hfind ⊢
  cases hfront : front.find? fun test => test.1 = path with
  | some first =>
      rw [hfront] at hfind
      exact hfind
  | none =>
      rw [hfront, Option.none_or] at hfind
      rw [Option.none_or, ← hfind, ← List.head?_filter, ← List.head?_filter]
      obtain rfl : test.1 = path := by
        simpa using List.find?_some hfind
      have hpath : test.1 ∈ subtests'.map Prod.fst :=
        List.mem_map_of_mem (List.mem_of_find?_eq_some hfind)
      -- Among the tests that authors wrote no additional one is at this path.
      rw [(extendedBy_subtestEntries hordered hmem htested hsubtests hsubtests').filter_eq]
      rintro other ⟨-, hnew⟩
      exact decide_eq_false fun hsame => hnew (hsame ▸ hpath)

/-- The tests of merged definitions are those without additional tests, and additional ones. -/
theorem exists_extendedBy_of_gives_apiTests
    {before after before' after' : Diagnostics} {table table' : Table}
    (hordered : catalog.IsOrdered)
    (h : Gives (apiTests merged valid catalog) before table after)
    (h' : Gives (apiTests merged valid catalog.withoutAdditional) before' table' after') :
    ∃ tests tests', ExtendedBy (IsAddition merged catalog) tests' tests ∧
      table = Table.ofTests tests ∧ table' = Table.ofTests tests' := by
  obtain ⟨definitions, globals, hdefinitions, hglobals, rfl⟩ := exists_of_gives_apiTests h
  obtain ⟨definitions', globals', hdefinitions', hglobals', rfl⟩ := exists_of_gives_apiTests h'
  have hrows : List.Forall₂ (ExtendedBy (IsAddition merged catalog)) definitions' definitions := by
    refine forall₂_of_common hdefinitions' hdefinitions ?_
    intro definition hdefinition row' row hrow' hrow
    obtain ⟨hmem, htested⟩ := List.mem_filter.1 hdefinition
    exact extendedBy_definitionEntries hordered hmem htested hrow hrow'
  have hsame : List.Forall₂ Eq globals' globals := by
    refine forall₂_of_common hglobals' hglobals ?_
    intro item _ row' row hrow' hrow
    rw [globalEntry_withoutAdditional] at hrow'
    exact (holdsOf_globalEntry Catalog.holdsOfAnswers_orderly
      (fun _ _ _ _ => Reporting.orderly_ofExcept _)
      (Reporting.orderly_ofExcept _)).yields_unique hrow' hrow
  rw [List.forall₂_eq_eq_eq] at hsame
  subst hsame
  exact ⟨_, _, (ExtendedBy.flatten hrows).append (extendedBy_refl _), rfl, rfl⟩

/-- At a path that is no additional test's the table does not depend on additional tests. -/
theorem get?_withoutAdditional
    {before after before' after' : Diagnostics} {table table' : Table} {path : String}
    (hordered : catalog.IsOrdered)
    (h : Gives (apiTests merged valid catalog) before table after)
    (h' : Gives (apiTests merged valid catalog.withoutAdditional) before' table' after')
    (hpath : ¬∃ definition names, Adds merged catalog path definition names) :
    table.get? path = table'.get? path := by
  obtain ⟨tests, tests', hextended, rfl, rfl⟩ := exists_extendedBy_of_gives_apiTests hordered h h'
  rw [Table.ofTests, Table.ofTests, Table.get?_insertTests, Table.get?_insertTests,
    hextended.filter_eq]
  rintro test ⟨definition, names, hadds, -⟩
  exact decide_eq_false fun hsame => hpath ⟨definition, names, hsame ▸ hadds⟩

/-- A test that is planned at a path below a definition is one of this definition. -/
theorem exists_mem_of_planned
    {below : String} {scopes : String → Prop}
    (hnames : PlainNames merged.definitions)
    (hglobals : ∀ item ∈ merged.globals, ∀ name, item.member.name = some name → '.' ∉ name.toList)
    (hmem : definition ∈ merged.definitions)
    (htested : isTested definition)
    (h : Yields (definitionEntries catalog valid definition) tests)
    (hplan : Planned merged valid catalog (memberPath definition.name below) scopes) :
    ∃ test ∈ tests, test.1 = memberPath definition.name below := by
  generalize hpath : memberPath definition.name below = path at hplan
  have hown := hnames.plain definition hmem
  have hsame : ∀ other ∈ merged.definitions, ∀ rest,
      memberPath definition.name below = memberPath other.name rest → definition = other :=
    fun other hother rest heq => List.inj_on_of_nodup_map hnames.distinct hmem hother
      ((memberPath_inj hown (hnames.plain other hother)).1 heq).1
  obtain ⟨-, -, hprobes, hauthored⟩ := definitionEntries_realize hmem htested h
  cases hplan with
  | definition hother _ =>
      exact absurd hpath.symm (apiPath_ne_memberPath (hnames.plain _ hother))
  | @probe other probe hother _ hprobe =>
      obtain rfl := hsame other hother _ hpath
      obtain ⟨test, htest, hfound, -⟩ := hprobes probe hprobe
      exact ⟨test, htest, hfound⟩
  | @authored other rest hother _ hwritten =>
      obtain rfl := hsame other hother _ hpath
      obtain ⟨test, htest, hfound, -⟩ := hauthored rest hwritten
      exact ⟨test, htest, hfound⟩
  | globalMember hitem hname _ =>
      exact absurd hpath.symm (apiPath_ne_memberPath (hglobals _ hitem _ hname))

/-- An additional test does not change the code of a test that is made without it. -/
theorem code_withoutAdditional
    {before after before' after' : Diagnostics} {table table' : Table} {path : String}
    {test test' : CompiledTest}
    (hnames : PlainNames merged.definitions)
    (hglobals : ∀ item ∈ merged.globals, ∀ name, item.member.name = some name → '.' ∉ name.toList)
    (hordered : catalog.IsOrdered)
    (h : Gives (apiTests merged valid catalog) before table after)
    (h' : Gives (apiTests merged valid catalog.withoutAdditional) before' table' after')
    (htest : table.get? path = some test)
    (htest' : table'.get? path = some test') :
    test.code = test'.code := by
  by_cases hadds : ∃ definition names, Adds merged catalog path definition names
  · obtain ⟨definition, names, hadds⟩ := hadds
    obtain ⟨scopes, hplan⟩ :
        ∃ scopes, Planned merged valid catalog.withoutAdditional path scopes := by
      obtain ⟨tests', rfl, hrealizes⟩ := apiTests_realize h'
      exact hrealizes.exists_plan htest'
    cases hadds with
    | @mk definition node item hmem htested hnode hitem =>
        obtain ⟨tests, htests, hfirst⟩ :=
          exists_tests_of_isPathOf hnames h hmem htested (Or.inr ⟨_, rfl⟩)
        obtain ⟨tests', htests', hfirst'⟩ :=
          exists_tests_of_isPathOf hnames h' hmem htested (Or.inr ⟨_, rfl⟩)
        obtain ⟨entry, hentry, hpath⟩ :=
          exists_mem_of_planned hnames hglobals hmem htested htests' hplan
        have hsome : (tests'.find? fun test =>
            test.1 = memberPath definition.name item.path).isSome :=
          List.find?_isSome.2 ⟨entry, hentry, decide_eq_true hpath⟩
        obtain ⟨first, hfind⟩ := Option.isSome_iff_exists.1 hsome
        obtain ⟨found', hfound', hcode'⟩ := hfirst' first hfind
        obtain ⟨found, hfound, hcode⟩ :=
          hfirst first (find?_definitionEntries hordered hmem htested htests htests' hfind)
        cases htest.symm.trans hfound
        cases htest'.symm.trans hfound'
        rw [hcode, hcode']
  · rw [get?_withoutAdditional hordered h h' hadds, htest'] at htest
    cases htest
    rfl

/-- Additional tests leave the resources of other tests and bring those that they need. -/
theorem carries_withoutAdditional
    {before after before' after' : Diagnostics} {table table' : Table} {path name : String}
    {test test' : CompiledTest} {resource : Catalog.Resource}
    (hordered : catalog.IsOrdered)
    (h : Gives (apiTests merged valid catalog) before table after)
    (h' : Gives (apiTests merged valid catalog.withoutAdditional) before' table' after')
    (htest : table.get? path = some test)
    (htest' : table'.get? path = some test') :
    (test'.Carries name resource → test.Carries name resource) ∧
      (test.Carries name resource → test'.Carries name resource ∨
        ∃ definition names, Adds merged catalog path definition names ∧ name ∈ names) := by
  have hsound := (apiTests_resources h).1 path test
  have hsound' := (apiTests_resources h').1 path test'
  obtain ⟨tests, tests', hextended, rfl, rfl⟩ := exists_extendedBy_of_gives_apiTests hordered h h'
  constructor
  · intro hcarries
    obtain ⟨source, hmem, rfl, hthis⟩ := exists_mem_of_carries htest' hcarries
    obtain ⟨other, hother⟩ := exists_carries_of_mem (hextended.subset hmem) ⟨resource, hthis⟩ htest
    cases (hsound name other htest hother).symm.trans (hsound' name resource htest' hcarries)
    exact hother
  · intro hcarries
    obtain ⟨source, hmem, rfl, hthis⟩ := exists_mem_of_carries htest hcarries
    rcases hextended.mem_or hmem with hmem | ⟨definition, names, hadds, hneeded⟩
    · obtain ⟨other, hother⟩ := exists_carries_of_mem hmem ⟨resource, hthis⟩ htest'
      cases (hsound' name other htest' hother).symm.trans (hsound name resource htest hcarries)
      exact Or.inl hother
    · exact Or.inr ⟨definition, names, hadds, hneeded name resource hthis⟩

/-- An additional test adds the scopes of its definition to the path that it has. -/
theorem mem_exposure_withoutAdditional
    {before after before' after' : Diagnostics} {table table' : Table} {path : String}
    {test test' : CompiledTest}
    (h : Gives (apiTests merged valid catalog) before table after)
    (h' : Gives (apiTests merged valid catalog.withoutAdditional) before' table' after')
    (htest : table.get? path = some test)
    (htest' : table'.get? path = some test')
    (scope : String) :
    scope ∈ test.exposure ↔
      scope ∈ test'.exposure ∨
        ∃ definition names, Adds merged catalog path definition names ∧
          definition.ExposedIn valid scope := by
  obtain ⟨tests, rfl, hrealizes⟩ := apiTests_realize h
  obtain ⟨tests', rfl, hrealizes'⟩ := apiTests_realize h'
  rw [hrealizes.mem_exposure_iff htest, hrealizes'.mem_exposure_iff htest']
  constructor
  · rintro ⟨scopes, hplan, hscope⟩
    rcases planned_iff.1 hplan with hplan | ⟨definition, names, hadds, rfl⟩
    · exact Or.inl ⟨scopes, hplan, hscope⟩
    · exact Or.inr ⟨definition, names, hadds, hscope⟩
  · rintro (⟨scopes, hplan, hscope⟩ | ⟨definition, names, hadds, hscope⟩)
    · exact ⟨scopes, planned_iff.2 (Or.inl hplan), hscope⟩
    · exact ⟨_, planned_iff.2 (Or.inr ⟨definition, names, hadds, rfl⟩), hscope⟩

/-- Additional tests only add to a table.  Every test that is made without them is made with them,
and its code is the same.  It is the same test unless an additional one has its path; then the
scopes of the additional test's definition are added to its own, and at most the resources that the
additional test needs to its own.  All other paths are those of additional tests. -/
theorem apiTests_additional
    {before after before' after' : Diagnostics} {table table' : Table}
    (hnames : PlainNames merged.definitions)
    (hglobals : ∀ item ∈ merged.globals, ∀ name, item.member.name = some name → '.' ∉ name.toList)
    (hordered : catalog.IsOrdered)
    (h : Gives (apiTests merged valid catalog) before table after)
    (h' : Gives (apiTests merged valid catalog.withoutAdditional) before' table' after') :
    (∀ path, (¬∃ definition names, Adds merged catalog path definition names) →
      table.get? path = table'.get? path) ∧
    ∀ path test', table'.get? path = some test' →
      ∃ test, table.get? path = some test ∧ test.code = test'.code ∧
        (∀ scope, scope ∈ test.exposure ↔
          scope ∈ test'.exposure ∨
            ∃ definition names, Adds merged catalog path definition names ∧
              definition.ExposedIn valid scope) ∧
        ∀ name resource,
          (test'.Carries name resource → test.Carries name resource) ∧
          (test.Carries name resource → test'.Carries name resource ∨
            ∃ definition names, Adds merged catalog path definition names ∧ name ∈ names) := by
  refine ⟨fun path => get?_withoutAdditional hordered h h', fun path test' htest' => ?_⟩
  have hmem : path ∈ table.keys := by
    obtain ⟨tests, tests', hextended, rfl, rfl⟩ :=
      exists_extendedBy_of_gives_apiTests hordered h h'
    have hpath : path ∈ tests'.map Prod.fst :=
      Table.mem_keys_ofTests_iff.1 (SortedMap.mem_keys_iff.2 (Option.isSome_of_eq_some htest'))
    exact Table.mem_keys_ofTests_iff.2 (List.map_subset Prod.fst hextended.subset hpath)
  obtain ⟨test, htest⟩ := Option.isSome_iff_exists.1 (SortedMap.mem_keys_iff.1 hmem)
  exact ⟨test, htest, code_withoutAdditional hnames hglobals hordered h h' htest htest',
    mem_exposure_withoutAdditional h h' htest htest',
    fun name resource => carries_withoutAdditional hordered h h' htest htest'⟩

end Tests

/-! ## A kettle -/

/-- An interface of all scopes with an attribute that is restricted to one scope. -/
def kettle : Merged where
  definitions :=
    [{ Definition.ofKind .interface "Kettle" with
        members :=
          [{ Member.ofKind .attr (some "lid") with
              attributes := [⟨"Exposed", some (.identifier "Window"), []⟩] }]
        attributes := [⟨"Exposed", some .wildcard, []⟩] }]
  globals := []

/-- An additional test has the name of the attribute. -/
def kettleDocument : Json.Value :=
  .object [("api", .object [("Kettle", .object [("__additional",
    .object [("lid", .string "return 1;")])])])]

/-- The catalog of the document. -/
def kettleCatalog : Catalog where
  root := { Catalog.Node.empty with
    children := [("api", { Catalog.Node.empty with
      children := [("Kettle", { Catalog.Node.empty with
        additional := .ofList [("lid", "return 1;")] })] })] }
  resources := .empty

theorem ofDocument_kettleDocument :
    Catalog.ofDocument kettleDocument = .ok kettleCatalog := by
  cbv

theorem adds_kettle :
    ∃ definition names, Adds kettle kettleCatalog "api.Kettle.lid" definition names ∧
      definition.ExposedIn (.ofNames ["Window", "Worker"]) "Worker" := by
  obtain ⟨definition, hmem, hname, htested, hexposed⟩ :
      ∃ definition ∈ kettle.definitions, definition.name = "Kettle" ∧ isTested definition ∧
        definition.ExposedIn (.ofNames ["Window", "Worker"]) "Worker" :=
    ⟨_, List.mem_cons_self, rfl, rfl, _, rfl, .wildcard rfl (by decide)⟩
  obtain ⟨node, hnode, hitem⟩ :
      ∃ node, kettleCatalog.node? (interfacePath "Kettle") = some node ∧
        IsAdditional node ⟨"lid", node, "return 1;"⟩ :=
    ⟨_, rfl, .own List.mem_cons_self⟩
  rw [← hname] at hnode
  have hadds := Adds.mk hmem htested hnode hitem
  rw [hname] at hadds
  exact ⟨definition, _, hadds, hexposed⟩

/-- The test at the path of the attribute. -/
def lid? (catalog : Catalog) : Option CompiledTest :=
  (Reporting.result? (apiTests kettle (.ofNames ["Window", "Worker"]) catalog)).bind fun table =>
    table.get? "api.Kettle.lid"

theorem exists_of_lid?
    {catalog : Catalog} {test : CompiledTest}
    (h : lid? catalog = some test) :
    ∃ table after,
      Gives (apiTests kettle (.ofNames ["Window", "Worker"]) catalog) [] table after ∧
      table.get? "api.Kettle.lid" = some test := by
  obtain ⟨table, htable, htest⟩ := Option.bind_eq_some_iff.1 h
  obtain ⟨after, h⟩ := Reporting.exists_gives_of_result? htable
  exact ⟨table, after, h, htest⟩

/-- The additional test leaves the interface and the code of the attribute as they are.  The
attribute is then also tested in the scopes of its interface. -/
theorem apiTests_kettle :
    ∃ table table' after after',
      Gives (apiTests kettle (.ofNames ["Window", "Worker"]) kettleCatalog) [] table after ∧
      Gives (apiTests kettle (.ofNames ["Window", "Worker"]) kettleCatalog.withoutAdditional) []
        table' after' ∧
      table.get? "api.Kettle" = table'.get? "api.Kettle" ∧
      ∃ test test', table.get? "api.Kettle.lid" = some test ∧
        table'.get? "api.Kettle.lid" = some test' ∧ test.code = test'.code ∧
        "Worker" ∈ test.exposure := by
  have hbuilds : (lid? kettleCatalog).isSome ∧ (lid? kettleCatalog.withoutAdditional).isSome := by
    decide +kernel
  obtain ⟨test, htest⟩ := Option.isSome_iff_exists.1 hbuilds.1
  obtain ⟨test', htest'⟩ := Option.isSome_iff_exists.1 hbuilds.2
  obtain ⟨table, after, h, -⟩ := exists_of_lid? htest
  obtain ⟨table', after', h', htest'⟩ := exists_of_lid? htest'
  have hnames : PlainNames kettle.definitions := by
    refine ⟨List.nodup_singleton _, fun definition hmem => ?_⟩
    rw [List.mem_singleton.1 hmem]
    change '.' ∉ "Kettle".toList
    decide
  obtain ⟨hothers, hall⟩ := apiTests_additional hnames (by rintro _ ⟨⟩)
    (Catalog.isOrdered_of_ofDocument ofDocument_kettleDocument) h h'
  obtain ⟨test, htest, hcode, hscopes, -⟩ := hall _ _ htest'
  refine ⟨table, table', after, after', h, h', hothers _ ?_, test, test', htest, htest', hcode,
    (hscopes "Worker").2 (Or.inr adds_kettle)⟩
  rintro ⟨definition, names, hadds⟩
  generalize hpath : "api.Kettle" = path at hadds
  obtain ⟨hmem, -, -, -⟩ := hadds
  have hplain : '.' ∉ "Kettle".toList := by
    decide
  exact absurd hpath (apiPath_ne_memberPath hplain)

/-- The attribute is not restricted to its scope any more where an additional test has its name. -/
theorem apiTests_kettle_widened :
    ∃ table table' after after' test test',
      Gives (apiTests kettle (.ofNames ["Window", "Worker"]) kettleCatalog) [] table after ∧
      Gives (apiTests kettle (.ofNames ["Window", "Worker"]) kettleCatalog.withoutAdditional) []
        table' after' ∧
      table'.get? "api.Kettle.lid" = some test' ∧ table.get? "api.Kettle.lid" = some test ∧
      test'.exposure = ["Window"] ∧ test.exposure ≠ test'.exposure := by
  have hbuilds : (lid? kettleCatalog).isSome ∧
      (lid? kettleCatalog.withoutAdditional).map CompiledTest.exposure = some ["Window"] := by
    decide +kernel
  obtain ⟨test, htest⟩ := Option.isSome_iff_exists.1 hbuilds.1
  obtain ⟨test', htest', hscopes'⟩ := Option.map_eq_some_iff.1 hbuilds.2
  obtain ⟨table, after, h, htest⟩ := exists_of_lid? htest
  obtain ⟨table', after', h', htest'⟩ := exists_of_lid? htest'
  refine ⟨table, table', after, after', test, test', h, h', htest', htest, hscopes', ?_⟩
  intro hsame
  have hworker := (mem_exposure_withoutAdditional h h' htest htest' "Worker").2
    (Or.inr adds_kettle)
  rw [hsame, hscopes'] at hworker
  exact absurd hworker (by decide)

end Build
end FeatureProbes
