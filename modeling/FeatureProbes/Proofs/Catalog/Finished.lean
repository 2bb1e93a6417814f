import FeatureProbes.Proofs.Catalog.Answers
import FeatureProbes.Proofs.Script.Throwing
import FeatureProbes.Proofs.SortedMap

/-!
# Finished tests

All code that a catalog puts in place of a test is a script.  It is the wrapped body, and then no
malformed test is noted for it, or it throws the reason why the wrapped body is no script, and then
this reason is noted at the path of the test.

Expanding imports notes nothing but invalid imports, and what it gives does not depend on what was
noted before.  So a malformed test is noted by the end of the test alone, and the body of a test is
determined by the catalog.
-/

namespace FeatureProbes
namespace Catalog

open Reporting (Gives Yields Orderly)

/-! ## The end of a test -/

/-- Nothing is noted about a malformed test between some diagnostics and others. -/
def NoneMalformed (before after : Diagnostics) : Prop :=
  ∀ note ∈ after, note.code = "P-DIAG-MALFORMED" → note ∈ before

theorem noneMalformed_of_gives
    {α : Type} {step : Reporting α} {before after : Diagnostics} {value : α}
    (horderly : Orderly IsImportNote step)
    (h : Gives step before value after) :
    NoneMalformed before after := by
  intro note hnote hcode
  rcases horderly.mem_or h hnote with hbefore | himport
  · exact hbefore
  · rw [IsImportNote, hcode] at himport
    exact absurd himport (by decide)

theorem NoneMalformed.trans
    {before middle after : Diagnostics}
    (hfirst : NoneMalformed before middle)
    (hsecond : NoneMalformed middle after) :
    NoneMalformed before after := by
  intro note hnote hcode
  exact hfirst note (hsecond note hnote hcode) hcode

/-- What is noted about a test whose wrapped body is no script. -/
def malformedNote (path : String) (fault : Script.Fault) : Diagnostic where
  code := "P-DIAG-MALFORMED"
  path := path
  message := "Test is malformed: " ++ fault.message

/-- The code that is returned for a body at a path, and the diagnostics after it. -/
inductive Finished (path body : String) (after : Diagnostics) : String → Prop where
  | kept
      (hfault : Script.fault? (Script.wrap body) = none) :
      Finished path body after (Script.wrap body)
  | replaced
      {fault : Script.Fault}
      (hfault : Script.fault? (Script.wrap body) = some fault)
      (hnote : malformedNote path fault ∈ after) :
      Finished path body after
        (Script.wrap (Script.throwing (malformedNote path fault).message))

/-- Finished code is a script. -/
theorem Finished.fault?_eq_none
    {path body code : String} {after : Diagnostics}
    (h : Finished path body after code) :
    Script.fault? code = none := by
  cases h with
  | kept hfault =>
      exact hfault
  | replaced hfault hnote =>
      exact Script.fault?_wrap_throwing _

theorem Finished.mono
    {path body code : String} {middle after : Diagnostics}
    (h : Finished path body middle code)
    (hsub : middle <+: after) :
    Finished path body after code := by
  cases h with
  | kept hfault =>
      exact .kept hfault
  | replaced hfault hnote =>
      exact .replaced hfault (hsub.subset hnote)

/-- The end of a test notes that its wrapped body is no script, or nothing. -/
theorem gives_finish_iff
    {path body code : String} {before after : Diagnostics} :
    Gives (finish path body) before code after ↔
      (Script.fault? (Script.wrap body) = none ∧ Script.wrap body = code ∧ before = after) ∨
        ∃ fault, Script.fault? (Script.wrap body) = some fault ∧
          before.report (malformedNote path fault) = after ∧
          Script.wrap (Script.throwing (malformedNote path fault).message) = code := by
  unfold finish
  generalize Script.fault? (Script.wrap body) = result
  cases result with
  | none =>
      simp
  | some fault =>
      simp [Reporting.gives_map_iff, malformedNote]

/-- The end of a test notes nothing but that its wrapped body is no script. -/
theorem mem_or_of_gives_finish
    {path body code : String} {before after : Diagnostics} {note : Diagnostic}
    (h : Gives (finish path body) before code after)
    (hnote : note ∈ after) :
    note ∈ before ∨
      ∃ fault, Script.fault? (Script.wrap body) = some fault ∧ note = malformedNote path fault := by
  rcases gives_finish_iff.1 h with ⟨-, -, rfl⟩ | ⟨fault, hfault, rfl, -⟩
  · exact Or.inl hnote
  · rcases Diagnostics.mem_report_iff.1 hnote with hnote | rfl
    · exact Or.inl hnote
    · exact Or.inr ⟨fault, hfault, rfl⟩

/-- The end of a test that is resolved without a note about a malformed test finishes its body. -/
theorem finished_of_gives
    {path body code : String} {before middle after : Diagnostics}
    (hquiet : NoneMalformed before middle)
    (h : Gives (finish path body) middle code after) :
    Finished path body after code ∧
      (code = Script.wrap body → NoneMalformed before after) := by
  rcases gives_finish_iff.1 h with ⟨hfault, rfl, rfl⟩ | ⟨fault, hfault, rfl, rfl⟩
  · exact ⟨.kept hfault, fun _ => hquiet⟩
  · refine ⟨.replaced hfault (Diagnostics.mem_report middle _), ?_⟩
    intro hsame
    have hnone := Script.fault?_wrap_throwing (malformedNote path fault).message
    rw [hsame, hfault] at hnone
    cases hnone

/-! ## Resolved bodies -/

/-- The body of the test of the node at a path on its own. -/
def ResolvesNode
    (catalog : Catalog)
    (path body : String) : Prop :=
  ∃ node, catalog.data path = .ok node ∧ Yields (catalog.ownBody path node) (some body)

/-- The body of the test of an interface. -/
def ResolvesInterface
    (catalog : Catalog)
    (interface body : String) : Prop :=
  ∃ node base,
    catalog.node? (interfacePath interface) = some node ∧
    Yields (catalog.expand? (interfacePath interface) node.base) base ∧
    Yields (catalog.interfaceBody (interfacePath interface) node base) (some body)

/-- The path of a member of an interface. -/
def memberPath (interface member : String) : String :=
  interfacePath interface ++ "." ++ member

/-- The body of the test of a member of an interface. -/
def ResolvesMember
    (catalog : Catalog)
    (interface member : String)
    (kind : ProbeKind)
    (body : String) : Prop :=
  ∃ node base,
    catalog.node? (interfacePath interface) = some node ∧
    Yields (catalog.expand? (interfacePath interface) node.base) base ∧
    Yields
      (catalog.memberBody (memberPath interface member) member kind base (node.child? member))
      (some body)

/-- The body of a test that an author wrote below an interface. -/
def ResolvesSubtest
    (catalog : Catalog)
    (interface : String)
    (known : NameSet)
    (item : Subtest)
    (body : String) : Prop :=
  ∃ node base code,
    catalog.node? (interfacePath interface) = some node ∧
    item ∈ subtestsOf known node ∧
    Yields (catalog.expand? (interfacePath interface) node.base) base ∧
    Yields (catalog.expand (memberPath interface item.path) item.code) code ∧
    body = Script.join [base.getD "", code]

section Calls

variable {catalog : Catalog} {before after : Diagnostics} {result : Override} {code : String}

theorem finished_of_gives_resolved
    {resolve : Reporting (Option String)} {path : String} {resources : Resources}
    (horderly : Orderly IsImportNote resolve)
    (h : Gives
      (do
        match ← resolve with
        | .none => return ⟨.none, resources⟩
        | some body => return ⟨some (← finish path body), resources⟩)
      before result after)
    (hcode : result.test = some code) :
    ∃ body, Yields resolve (some body) ∧ Finished path body after code ∧
      (code = Script.wrap body → NoneMalformed before after) := by
  obtain ⟨body, middle, hbody, h⟩ := Reporting.gives_bind_iff.1 h
  cases body with
  | none =>
      obtain ⟨rfl, -⟩ := Reporting.gives_pure_iff.1 h
      cases hcode
  | some body =>
      obtain ⟨text, last, hfinish, h⟩ := Reporting.gives_bind_iff.1 h
      obtain ⟨rfl, rfl⟩ := Reporting.gives_pure_iff.1 h
      cases hcode
      exact ⟨body, hbody.yields, finished_of_gives (noneMalformed_of_gives horderly hbody) hfinish⟩

theorem finished_of_gives_test
    {path : String}
    (h : Gives (catalog.test path) before result after)
    (hcode : result.test = some code) :
    ∃ body, catalog.ResolvesNode path body ∧ Finished path body after code ∧
      (code = Script.wrap body → NoneMalformed before after) := by
  rw [test] at h
  obtain ⟨node, first, hnode, h⟩ := Reporting.gives_bind_iff.1 h
  obtain ⟨hdata, rfl⟩ := Reporting.gives_ofExcept_iff.1 hnode
  obtain ⟨resources, first, hresources, h⟩ := Reporting.gives_bind_iff.1 h
  obtain ⟨-, rfl⟩ := Reporting.gives_ofExcept_iff.1 hresources
  obtain ⟨body, hbody, hfinished⟩ :=
    finished_of_gives_resolved (holdsOfBodies_orderly.ownBody path node) h hcode
  exact ⟨body, ⟨node, hdata, hbody⟩, hfinished⟩

theorem finished_of_gives_interfaceTest
    {interface : String}
    (h : Gives (catalog.interfaceTest interface) before result after)
    (hcode : result.test = some code) :
    ∃ body, catalog.ResolvesInterface interface body ∧
      Finished (interfacePath interface) body after code ∧
      (code = Script.wrap body → NoneMalformed before after) := by
  unfold interfaceTest at h
  cases hnode : catalog.node? (interfacePath interface) with
  | none =>
      simp only [hnode] at h
      obtain ⟨rfl, -⟩ := Reporting.gives_pure_iff.1 h
      cases hcode
  | some node =>
      simp only [hnode] at h
      obtain ⟨resources, first, hresources, h⟩ := Reporting.gives_bind_iff.1 h
      obtain ⟨-, rfl⟩ := Reporting.gives_ofExcept_iff.1 hresources
      obtain ⟨base, middle, hbase, h⟩ := Reporting.gives_bind_iff.1 h
      obtain ⟨body, hbody, hfinished, hkept⟩ :=
        finished_of_gives_resolved (holdsOfBodies_orderly.interfaceBody _ node base) h hcode
      have hquiet := noneMalformed_of_gives (holdsOfBodies_orderly.expand? _ node.base) hbase
      exact ⟨body, ⟨node, base, hnode, hbase.yields, hbody⟩, hfinished,
        fun hsame => hquiet.trans (hkept hsame)⟩

theorem finished_of_gives_memberTest
    {interface member : String} {kind : ProbeKind}
    (h : Gives (catalog.memberTest interface member kind) before result after)
    (hcode : result.test = some code) :
    ∃ body, catalog.ResolvesMember interface member kind body ∧
      Finished (memberPath interface member) body after code ∧
      (code = Script.wrap body → NoneMalformed before after) := by
  unfold memberTest at h
  cases hnode : catalog.node? (interfacePath interface) with
  | none =>
      simp only [hnode] at h
      obtain ⟨rfl, -⟩ := Reporting.gives_pure_iff.1 h
      cases hcode
  | some node =>
      simp only [hnode] at h
      obtain ⟨shared, first, hshared, h⟩ := Reporting.gives_bind_iff.1 h
      obtain ⟨-, rfl⟩ := Reporting.gives_ofExcept_iff.1 hshared
      obtain ⟨base, middle, hbase, h⟩ := Reporting.gives_bind_iff.1 h
      have hquiet := noneMalformed_of_gives (holdsOfBodies_orderly.expand? _ node.base) hbase
      by_cases hkind : kind = .constructor
      · rw [if_pos hkind] at h
        obtain ⟨rfl, -⟩ := Reporting.gives_pure_iff.1 h
        cases hcode
      · rw [if_neg hkind] at h
        -- The resources of the member come from its node, but the rest does not depend on them.
        obtain ⟨own, h⟩ : ∃ own, Gives
            (do
              match ← catalog.memberBody (memberPath interface member) member kind base
                (node.child? member) with
              | .none => return ⟨.none, shared.union own⟩
              | some body =>
                  return ⟨some (← finish (memberPath interface member) body), shared.union own⟩)
            middle result after := by
          cases hchild : node.child? member with
          | none =>
              simp only [hchild] at h
              exact ⟨.empty, h⟩
          | some child =>
              simp only [hchild] at h
              obtain ⟨own, first, hown, h⟩ := Reporting.gives_bind_iff.1 h
              obtain ⟨-, rfl⟩ := Reporting.gives_ofExcept_iff.1 hown
              exact ⟨own, h⟩
        obtain ⟨body, hbody, hfinished, hkept⟩ :=
          finished_of_gives_resolved (holdsOfBodies_orderly.memberBody _ member kind base _) h hcode
        exact ⟨body, ⟨node, base, hnode, hbase.yields, hbody⟩, hfinished,
          fun hsame => hquiet.trans (hkept hsame)⟩

theorem exists_of_gives_subtest
    {owner base : String} {shared : Resources} {item : Subtest} {entry : String × Override}
    (h : Gives (catalog.subtest owner base shared item) before entry after) :
    ∃ code middle text,
      Gives (catalog.expand (owner ++ "." ++ item.path) item.code) before code middle ∧
      Gives (finish (owner ++ "." ++ item.path) (Script.join [base, code])) middle text after ∧
      entry.1 = item.path ∧ entry.2.test = some text := by
  rw [subtest] at h
  obtain ⟨own, first, hown, h⟩ := Reporting.gives_bind_iff.1 h
  obtain ⟨-, rfl⟩ := Reporting.gives_ofExcept_iff.1 hown
  obtain ⟨code, middle, hexpand, h⟩ := Reporting.gives_bind_iff.1 h
  obtain ⟨text, last, hfinish, h⟩ := Reporting.gives_bind_iff.1 h
  obtain ⟨rfl, rfl⟩ := Reporting.gives_pure_iff.1 h
  exact ⟨code, middle, text, hexpand, hfinish, rfl, rfl⟩

/-- The catalog determines the body of a test below an interface. -/
theorem ResolvesSubtest.unique
    {interface : String} {known : NameSet} {item : Subtest} {first second : String}
    (hfirst : catalog.ResolvesSubtest interface known item first)
    (hsecond : catalog.ResolvesSubtest interface known item second) :
    first = second := by
  obtain ⟨node, base, code, hnode, -, hbase, hcode, rfl⟩ := hfirst
  obtain ⟨node', base', code', hnode', -, hbase', hcode', rfl⟩ := hsecond
  cases hnode.symm.trans hnode'
  cases (holdsOfBodies_orderly.expand? _ node.base).yields_unique hbase hbase'
  cases (orderly_expandWithin _ item.code).yields_unique hcode hcode'
  rfl

/-- A note about a malformed test below an interface. -/
def SubtestNoted
    (catalog : Catalog)
    (interface : String)
    (known : NameSet)
    (note : Diagnostic)
    (item : Subtest) : Prop :=
  ∃ body fault,
    catalog.ResolvesSubtest interface known item body ∧
    Script.fault? (Script.wrap body) = some fault ∧
    note = malformedNote (memberPath interface item.path) fault

theorem finished_of_gives_subtests
    {interface : String} {known : NameSet} {results : SortedMap Override}
    {entry : String × Override}
    (h : Gives (catalog.subtests interface known) before results after)
    (hentry : entry ∈ results.entries) :
    ∃ item body code,
      catalog.ResolvesSubtest interface known item body ∧
      entry.1 = item.path ∧ entry.2.test = some code ∧
      Finished (memberPath interface item.path) body after code ∧
      (code = Script.wrap body → ∀ note ∈ after, note.code = "P-DIAG-MALFORMED" →
        note ∈ before ∨
          ∃ other, other ≠ item ∧ catalog.SubtestNoted interface known note other) := by
  unfold subtests at h
  cases hnode : catalog.node? (interfacePath interface) with
  | none =>
      simp only [hnode] at h
      obtain ⟨rfl, -⟩ := Reporting.gives_pure_iff.1 h
      exact absurd hentry List.not_mem_nil
  | some node =>
      simp only [hnode] at h
      obtain ⟨shared, first, hshared, h⟩ := Reporting.gives_bind_iff.1 h
      obtain ⟨-, rfl⟩ := Reporting.gives_ofExcept_iff.1 hshared
      obtain ⟨base, middle, hbase, h⟩ := Reporting.gives_bind_iff.1 h
      obtain ⟨entries, last, hentries, h⟩ := Reporting.gives_bind_iff.1 h
      obtain ⟨rfl, rfl⟩ := Reporting.gives_pure_iff.1 h
      have hquiet := noneMalformed_of_gives (holdsOfBodies_orderly.expand? _ node.base) hbase
      -- The step for an item resolves its body and finishes it.
      have hstep : ∀ item ∈ subtestsOf known node, ∀ {first entry last},
          Gives (catalog.subtest (interfacePath interface) (base.getD "") shared item)
            first entry last →
          ∃ body middle code, catalog.ResolvesSubtest interface known item body ∧
            NoneMalformed first middle ∧
            Gives (finish (memberPath interface item.path) body) middle code last ∧
            entry.1 = item.path ∧ entry.2.test = some code := by
        intro item hitem first entry last hgives
        obtain ⟨text, middle, code, hexpand, hfinish, hpath, htest⟩ :=
          exists_of_gives_subtest hgives
        exact ⟨_, middle, code,
          ⟨node, base, text, hnode, hitem, hbase.yields, hexpand.yields, rfl⟩,
          noneMalformed_of_gives (orderly_expandWithin _ item.code) hexpand, hfinish, hpath, htest⟩
      obtain ⟨item, hitem, first, final, hgives, -, hfinal⟩ :=
        hentries.exists_of_mem_mapM (holdsOfAnswers_orderly.subtest _ _ _)
          (SortedMap.mem_of_mem_entries_ofList hentry)
      obtain ⟨body, second, code, hbody, hnone, hfinish, hpath, htest⟩ := hstep item hitem hgives
      have hfinished := (finished_of_gives hnone hfinish).1.mono hfinal
      refine ⟨item, body, code, hbody, hpath, htest, hfinished, ?_⟩
      intro hsame note hnote hcode
      rcases hentries.mem_or_of_mapM hnote with hmiddle | ⟨other, hother, hadded⟩
      · exact Or.inl (hquiet note hmiddle hcode)
      · obtain ⟨start, value, stop, hgives', hnew, hnoted⟩ := hadded
        obtain ⟨body', third, code', hbody', hnone', hfinish', -, -⟩ := hstep other hother hgives'
        rcases mem_or_of_gives_finish hfinish' hnoted with hthird | ⟨fault, hfault, rfl⟩
        · exact absurd (hnone' note hthird hcode) hnew
        · refine Or.inr ⟨other, ?_, body', fault, hbody', hfault, rfl⟩
          rintro rfl
          have hscript := hfinished.fault?_eq_none
          rw [hsame, hbody.unique hbody', hfault] at hscript
          cases hscript

end Calls

/-! ## The law of finished tests -/

/-- Whatever code a catalog returns for a node, an interface, a member or a test below an interface,
it is a script.  It is the wrapped body that the catalog determines, if that is a script, and then
the call notes no malformed test; tests below an interface are made by one call, which then notes
malformed tests for others of them only.  Otherwise the code throws the reason why the wrapped body
is no script, and this reason is noted at the path of the test. -/
theorem returned_code_finished
    (catalog : Catalog)
    (before after : Diagnostics) :
    (∀ path result code,
        Gives (catalog.test path) before result after → result.test = some code →
        Script.fault? code = none ∧
          ∃ body, catalog.ResolvesNode path body ∧ Finished path body after code ∧
            (code = Script.wrap body → NoneMalformed before after)) ∧
      (∀ interface result code,
        Gives (catalog.interfaceTest interface) before result after → result.test = some code →
        Script.fault? code = none ∧
          ∃ body, catalog.ResolvesInterface interface body ∧
            Finished (interfacePath interface) body after code ∧
            (code = Script.wrap body → NoneMalformed before after)) ∧
      (∀ interface member kind result code,
        Gives (catalog.memberTest interface member kind) before result after →
        result.test = some code →
        Script.fault? code = none ∧
          ∃ body, catalog.ResolvesMember interface member kind body ∧
            Finished (memberPath interface member) body after code ∧
            (code = Script.wrap body → NoneMalformed before after)) ∧
      ∀ interface known results entry,
        Gives (catalog.subtests interface known) before results after →
        entry ∈ results.entries →
        ∃ item body code,
          entry.1 = item.path ∧ entry.2.test = some code ∧
          Script.fault? code = none ∧
          catalog.ResolvesSubtest interface known item body ∧
          Finished (memberPath interface item.path) body after code ∧
          (code = Script.wrap body → ∀ note ∈ after, note.code = "P-DIAG-MALFORMED" →
            note ∈ before ∨
              ∃ other, other ≠ item ∧ catalog.SubtestNoted interface known note other) := by
  refine ⟨?_, ?_, ?_, ?_⟩
  · intro path result code h hcode
    obtain ⟨body, hbody, hfinished, hkept⟩ := finished_of_gives_test h hcode
    exact ⟨hfinished.fault?_eq_none, body, hbody, hfinished, hkept⟩
  · intro interface result code h hcode
    obtain ⟨body, hbody, hfinished, hkept⟩ := finished_of_gives_interfaceTest h hcode
    exact ⟨hfinished.fault?_eq_none, body, hbody, hfinished, hkept⟩
  · intro interface member kind result code h hcode
    obtain ⟨body, hbody, hfinished, hkept⟩ := finished_of_gives_memberTest h hcode
    exact ⟨hfinished.fault?_eq_none, body, hbody, hfinished, hkept⟩
  · intro interface known results entry h hentry
    obtain ⟨item, body, code, hbody, hpath, htest, hfinished, hkept⟩ :=
      finished_of_gives_subtests h hentry
    exact ⟨item, body, code, hpath, htest, hfinished.fault?_eq_none, hbody, hfinished, hkept⟩

/-- A catalog with a broken test and a sound test below it. -/
def sampler : Catalog where
  root :=
    { Node.empty with
      children :=
        [("api",
          { Node.empty with
            children :=
              [("A",
                { Node.empty with
                  test := some "return (;"
                  additional := .ofList [("extra", "return 1;")]
                  children := [("b", { Node.empty with test := some "return 2;" })] })] })] }
  resources := .empty

/-- The broken code of the sampler is no script, and its end is noted. -/
theorem gives_finish_broken :
    ∃ fault,
      Gives (finish "api.A" "return (;") []
        (Script.wrap (Script.throwing (malformedNote "api.A" fault).message))
        [malformedNote "api.A" fault] := by
  have hfault : (Script.fault? (Script.wrap "return (;")).isSome := by
    decide +kernel
  obtain ⟨fault, hfault⟩ := Option.isSome_iff_exists.1 hfault
  exact ⟨fault, gives_finish_iff.2 (Or.inr ⟨fault, hfault, rfl, rfl⟩)⟩

theorem gives_test_sampler
    {code : String} {after : Diagnostics}
    (h : Gives (finish "api.A" "return (;") [] code after) :
    Gives (sampler.test "api.A") [] ⟨some code, .empty⟩ after := by
  have hexpand : sampler.expand "api.A" "return (;" = pure "return (;" :=
    expand_of_no_import "api.A" (by decide)
  rw [test]
  refine Reporting.gives_bind_iff.2 ⟨⟨none, some "return (;", []⟩, [], rfl, ?_⟩
  refine Reporting.gives_bind_iff.2 ⟨.empty, [], rfl, ?_⟩
  refine Reporting.gives_bind_iff.2 ⟨some "return (;", [], ?_, ?_⟩
  · rw [ownBody, expand?, expand?, hexpand]
    rfl
  · exact Reporting.gives_bind_iff.2 ⟨code, after, h, rfl⟩

theorem gives_interfaceTest_sampler
    {code : String} {after : Diagnostics}
    (h : Gives (finish "api.A" "return (;") [] code after) :
    Gives (sampler.interfaceTest "A") [] ⟨some code, .empty⟩ after := by
  have hexpand : sampler.expand "api.A" "return (;" = pure "return (;" :=
    expand_of_no_import "api.A" (by decide)
  refine Reporting.gives_bind_iff.2 ⟨.empty, [], rfl, ?_⟩
  refine Reporting.gives_bind_iff.2 ⟨none, [], rfl, ?_⟩
  refine Reporting.gives_bind_iff.2 ⟨some "return (;", [], ?_, ?_⟩
  · change Gives (sampler.expand "api.A" "return (;" >>= _) _ _ _
    rw [hexpand]
    rfl
  · exact Reporting.gives_bind_iff.2 ⟨code, after, h, rfl⟩

theorem gives_memberTest_sampler :
    Gives (sampler.memberTest "A" "b" .property) []
      ⟨some (Script.wrap "return 2;"), .empty⟩ [] := by
  have hexpand : sampler.expand "api.A.b" "return 2;" = pure "return 2;" :=
    expand_of_no_import "api.A.b" (by decide)
  have hfinish : Gives (finish "api.A.b" "return 2;") [] (Script.wrap "return 2;") [] :=
    gives_finish_iff.2 (Or.inl ⟨by decide +kernel, rfl, rfl⟩)
  refine Reporting.gives_bind_iff.2 ⟨.empty, [], rfl, ?_⟩
  refine Reporting.gives_bind_iff.2 ⟨none, [], rfl, ?_⟩
  refine Reporting.gives_bind_iff.2 ⟨.empty, [], rfl, ?_⟩
  refine Reporting.gives_bind_iff.2 ⟨some "return 2;", [], ?_, ?_⟩
  · refine Reporting.gives_bind_iff.2 ⟨"return 2;", [], ?_, rfl⟩
    refine Reporting.gives_bind_iff.2 ⟨none, [], rfl, ?_⟩
    change Gives (sampler.expand "api.A.b" "return 2;" >>= _) _ _ _
    rw [hexpand]
    rfl
  · exact Reporting.gives_bind_iff.2 ⟨_, [], hfinish, rfl⟩

theorem gives_subtests_sampler :
    Gives (sampler.subtests "A" (.ofNames ["b"])) []
      (.ofList [("extra", ⟨some (Script.wrap "return 1;"), .empty⟩)]) [] := by
  have hexpand : sampler.expand "api.A.extra" "return 1;" = pure "return 1;" :=
    expand_of_no_import "api.A.extra" (by decide)
  have hfinish : Gives (finish "api.A.extra" "return 1;") [] (Script.wrap "return 1;") [] :=
    gives_finish_iff.2 (Or.inl ⟨by decide +kernel, rfl, rfl⟩)
  refine Reporting.gives_bind_iff.2 ⟨.empty, [], rfl, ?_⟩
  refine Reporting.gives_bind_iff.2 ⟨none, [], rfl, ?_⟩
  refine Reporting.gives_bind_iff.2 ⟨[_], [], ?_, rfl⟩
  change Gives (List.mapM (sampler.subtest "api.A" "" .empty) [⟨"extra", _, "return 1;"⟩]) _ _ _
  rw [List.mapM_cons]
  refine Reporting.gives_bind_iff.2 ⟨_, [], ?_, rfl⟩
  refine Reporting.gives_bind_iff.2 ⟨.empty, [], rfl, ?_⟩
  refine Reporting.gives_bind_iff.2 ⟨"return 1;", [], ?_, ?_⟩
  · change Gives (sampler.expand "api.A.extra" "return 1;") _ _ _
    rw [hexpand]
    rfl
  · exact Reporting.gives_bind_iff.2 ⟨_, [], hfinish, rfl⟩

/-- The sampler's broken test throws, and its sound tests are kept. -/
theorem sampler_code_finished :
    ∃ fault code, code = Script.wrap (Script.throwing (malformedNote "api.A" fault).message) ∧
      (Gives (sampler.test "api.A") [] ⟨some code, .empty⟩ [malformedNote "api.A" fault] ∧
        Script.fault? code = none) ∧
      (Gives (sampler.interfaceTest "A") [] ⟨some code, .empty⟩ [malformedNote "api.A" fault] ∧
        Script.fault? code = none) ∧
      (Gives (sampler.memberTest "A" "b" .property) []
          ⟨some (Script.wrap "return 2;"), .empty⟩ [] ∧
        Script.fault? (Script.wrap "return 2;") = none) ∧
      Gives (sampler.subtests "A" (.ofNames ["b"])) []
          (.ofList [("extra", ⟨some (Script.wrap "return 1;"), .empty⟩)]) [] ∧
        Script.fault? (Script.wrap "return 1;") = none := by
  obtain ⟨fault, hbroken⟩ := gives_finish_broken
  have htest := gives_test_sampler hbroken
  have hinterface := gives_interfaceTest_sampler hbroken
  have hmember := gives_memberTest_sampler
  have hsubtests := gives_subtests_sampler
  refine ⟨fault, _, rfl, ⟨htest, ?_⟩, ⟨hinterface, ?_⟩, ⟨hmember, ?_⟩, hsubtests, ?_⟩
  · exact ((returned_code_finished sampler [] _).1 _ _ _ htest rfl).1
  · exact ((returned_code_finished sampler [] _).2.1 _ _ _ hinterface rfl).1
  · exact ((returned_code_finished sampler [] []).2.2.1 _ _ _ _ _ hmember rfl).1
  · obtain ⟨item, body, code, -, hcode, hscript, -⟩ :=
      (returned_code_finished sampler [] []).2.2.2 _ _ _ _ hsubtests List.mem_cons_self
    cases hcode
    exact hscript

end Catalog
end FeatureProbes
