import FeatureProbes.Proofs.Build.Steps
import FeatureProbes.Proofs.Catalog.Difference
import FeatureProbes.Proofs.Probe.Table

/-!
# Builds with catalogs that differ in one test

A test that an author writes for a path decides on the code at this path and on nothing else.  Two
builds that differ in it alone make tests for the same paths, with the same scopes and resources,
and the code differs at that path at most.

Every builder asks the catalog about a path and makes an entry at this path, so entries are
compared one by one and then inserted.
-/

namespace FeatureProbes
namespace Build

open Catalog (Override interfacePath memberPath)
open Probe (CompiledTest Table TestCode)
open Reporting (Related Yields)
open SortedMap (Agree EntryAgree)
open WebIdl (Definition Merged)

/-- The entries that two overrides lead to agree if the overrides and the probes do. -/
theorem entryAgree_entry
    {spared path : String} {code code' : TestCode} {custom custom' : Override}
    (exposure : List String)
    (hcode : path ≠ spared → code = code')
    (h : Override.AgreeBut spared path custom custom') :
    EntryAgree (Table.AgreeBut spared) (entry path code custom exposure)
      (entry path code' custom' exposure) := by
  refine ⟨rfl, rfl, ?_, ?_⟩
  · change (if custom.resources.isEmpty then none else some custom.resources) =
      if custom'.resources.isEmpty then none else some custom'.resources
    rw [h.resources]
  · intro hpath
    change ((custom.test.map TestCode.raw).getD code).compile =
      ((custom'.test.map TestCode.raw).getD code').compile
    rw [h.test hpath, hcode hpath]

section Tables

variable {keys : List String} {first second : Catalog}

theorem related_testAt
    (h : Catalog.DiffersAt keys first second)
    (exposure : List String)
    (path : String)
    (code : TestCode) :
    Related (EntryAgree (Table.AgreeBut (Text.joinSegments keys)))
      (testAt first exposure path code) (testAt second exposure path code) :=
  (h.related_test path).bind fun _ _ hcustom =>
    Reporting.related_pure (entryAgree_entry exposure (fun _ => rfl) hcustom)

theorem related_memberEntry
    (h : Catalog.DiffersAt keys first second)
    (valid : NameSet)
    (definition : Definition)
    (exposure : NameSet)
    (member : ProbeMember) :
    Related (EntryAgree (Table.AgreeBut (Text.joinSegments keys)))
      (memberEntry first valid definition exposure member)
      (memberEntry second valid definition exposure member) := by
  refine Reporting.related_ofExcept_bind fun narrowed => ?_
  refine (h.related_memberTest definition.name member.name member.kind).bind fun _ _ hcustom => ?_
  exact Reporting.related_pure (entryAgree_entry narrowed.keys (fun _ => rfl) hcustom)

/-- Tests below a definition are there in both runs, so they are made for the same paths. -/
theorem related_subtestEntries
    (h : Catalog.DiffersAt keys first second)
    (definition : Definition)
    (exposure : NameSet) :
    Related (List.Forall₂ (EntryAgree (Table.AgreeBut (Text.joinSegments keys))))
      (subtestEntries first definition exposure) (subtestEntries second definition exposure) := by
  refine (h.related_subtests definition.name _).bind fun subtests subtests' hsubtests => ?_
  refine Reporting.related_pure (List.rel_filterMap ?_ hsubtests)
  rintro ⟨name, custom⟩ ⟨name', custom'⟩ ⟨hname, hboth⟩
  cases hname
  obtain ⟨hcustom, htest, htest'⟩ := hboth
  obtain ⟨code, hcode⟩ := Option.isSome_iff_exists.1 htest
  obtain ⟨code', hcode'⟩ := Option.isSome_iff_exists.1 htest'
  have hsame : memberPath definition.name name ≠ Text.joinSegments keys →
      TestCode.raw code = .raw code' := by
    intro hpath
    have heq := hcustom.test hpath
    rw [hcode, hcode'] at heq
    cases heq
    rfl
  dsimp only
  rw [hcode, hcode']
  exact .some (entryAgree_entry exposure.keys hsame hcustom)

theorem related_definitionEntries
    (h : Catalog.DiffersAt keys first second)
    (valid : NameSet)
    (definition : Definition) :
    Related (List.Forall₂ (EntryAgree (Table.AgreeBut (Text.joinSegments keys))))
      (definitionEntries first valid definition) (definitionEntries second valid definition) := by
  refine Reporting.related_ofExcept_bind fun exposure => ?_
  refine (h.related_interfaceTest definition.name).bind fun custom custom' hcustom => ?_
  have hmembers := Reporting.related_mapM (probesOf definition)
    (related_memberEntry h valid definition exposure)
  refine hmembers.bind fun members members' hmembers => ?_
  refine (related_subtestEntries h definition exposure).bind fun subtests subtests' hsubtests => ?_
  refine Reporting.related_pure (List.rel_append (.cons ?_ hmembers) hsubtests)
  exact entryAgree_entry exposure.keys (fun _ => rfl) hcustom

theorem related_globalEntry
    (h : Catalog.DiffersAt keys first second)
    (valid : NameSet)
    (merged : Merged)
    (item : WebIdl.GlobalMember) :
    Related (List.Forall₂ (EntryAgree (Table.AgreeBut (Text.joinSegments keys))))
      (globalEntry first valid merged item) (globalEntry second valid merged item) := by
  unfold globalEntry
  cases item.member.name with
  | none =>
      exact Reporting.related_pure .nil
  | some name =>
      dsimp only
      split
      · exact Reporting.related_pure .nil
      · refine Reporting.related_ofExcept_bind fun exposure => ?_
        refine Reporting.related_ofExcept_bind fun narrowed => ?_
        refine (h.related_interfaceTest name).bind fun custom custom' hcustom => ?_
        refine Reporting.related_pure (.cons ?_ .nil)
        exact entryAgree_entry narrowed.keys (fun _ => rfl) hcustom

theorem related_apiTable
    (h : Catalog.DiffersAt keys first second)
    (spec custom : WebIdl.Fragments)
    (valid : NameSet) :
    Related (Agree (Table.AgreeBut (Text.joinSegments keys)))
      (apiTable spec custom valid first) (apiTable spec custom valid second) := by
  refine Reporting.related_ofExcept_bind fun merged => ?_
  refine Reporting.related_ofExcept_bind fun _ => ?_
  have hdefinitions := Reporting.related_mapM (merged.definitions.filter isTested)
    (related_definitionEntries h valid)
  have hglobals := Reporting.related_mapM merged.globals (related_globalEntry h valid merged)
  refine hdefinitions.bind fun definitions definitions' hdefinitions => ?_
  refine hglobals.bind fun globals globals' hglobals => ?_
  have hentries := List.rel_append (List.rel_flatten hdefinitions) (List.rel_flatten hglobals)
  exact Reporting.related_pure (Table.agree_ofTests hentries)

theorem related_cssTable
    (h : Catalog.DiffersAt keys first second)
    (spec : SpecProperties)
    (custom : CustomProperties) :
    Related (Agree (Table.AgreeBut (Text.joinSegments keys)))
      (cssTable spec custom first) (cssTable spec custom second) := by
  unfold cssTable
  cases custom.keys.find? (specNames spec).contains with
  | some name =>
      rintro _ _ ⟨_, _, hfails⟩
      exact absurd hfails Reporting.not_gives_throw
  | none =>
      have htests := Reporting.related_mapM (cssProbes spec custom) fun item =>
        related_testAt h ["Window"] item.1 item.2
      exact htests.bind fun _ _ htests => Reporting.related_pure (Table.agree_ofTests htests)

theorem related_builtinTable
    (h : Catalog.DiffersAt keys first second)
    (builtins : Builtins)
    (exposure : List String) :
    Related (Agree (Table.AgreeBut (Text.joinSegments keys)))
      (builtinTable builtins first exposure) (builtinTable builtins second exposure) := by
  have htests := Reporting.related_mapM (builtinProbes builtins) fun item =>
    related_testAt h exposure item.1 item.2
  exact htests.bind fun _ _ htests => Reporting.related_pure (Table.agree_ofTests htests)

theorem related_table
    {document : Document} {value : Json.Value}
    (hfirst : document.loadCatalog = .ok first)
    (hsecond : { document with catalog := value }.loadCatalog = .ok second)
    (h : Catalog.DiffersAt keys first second) :
    Related (Agree (Table.AgreeBut (Text.joinSegments keys)))
      document.table { document with catalog := value }.table := by
  unfold Document.table
  rw [hfirst, hsecond]
  have hcatalog : Related (Catalog.DiffersAt keys) (Reporting.ofExcept (.ok first))
      (Reporting.ofExcept (.ok second)) :=
    Reporting.related_pure h
  refine hcatalog.bind fun catalog catalog' h => ?_
  refine Reporting.related_ofExcept_bind fun spec => ?_
  refine Reporting.related_ofExcept_bind fun custom => ?_
  refine (related_apiTable h spec custom _).bind fun api api' hapi => ?_
  refine (related_cssTable h _ _).bind fun css css' hcss => ?_
  refine (related_builtinTable h _ _).bind fun builtins builtins' hbuiltins => ?_
  exact Reporting.related_pure
    (Table.agree_insertTests (Table.agree_insertTests hapi hcss) hbuiltins)

end Tables

theorem yields_of_ofReporting
    {build : Reporting Table} {output : Output}
    (h : Output.ofReporting build = .ok output) :
    Yields build output.table :=
  ⟨[], output.diagnostics, ofReporting_eq_ok_iff.1 h⟩

/-- Where two documents are equal but for their catalogs, and these are equal but for the test of
one node, which both have, and both are built, then the tables have the same paths and at each path
the same scopes and the same resources.  The code is the same at each path but that of the node. -/
theorem tables_of_differsAt
    {document : Document} {value : Json.Value} {first second : Catalog} {keys : List String}
    {left right : Output}
    (hfirst : document.loadCatalog = .ok first)
    (hsecond : { document with catalog := value }.loadCatalog = .ok second)
    (hdiffers : first.DiffersAt keys second)
    (hleft : Output.ofReporting document.table = .ok left)
    (hright : Output.ofReporting { document with catalog := value }.table = .ok right) :
    left.table.keys = right.table.keys ∧
      ∀ path test test', left.table.get? path = some test → right.table.get? path = some test' →
        test.exposure = test'.exposure ∧ test.resources = test'.resources ∧
          (path ≠ Text.joinSegments keys → test.code = test'.code) := by
  have hagree : Agree (Table.AgreeBut (Text.joinSegments keys)) left.table right.table :=
    related_table hfirst hsecond hdiffers _ _ (yields_of_ofReporting hleft)
      (yields_of_ofReporting hright)
  refine ⟨hagree.keys_eq, ?_⟩
  intro path test test' htest htest'
  have hpair := hagree.get? path
  rw [htest, htest'] at hpair
  cases hpair with
  | some hpair =>
      exact ⟨hpair.exposure, hpair.resources, hpair.code⟩

/-- An interface that is listed with one attribute. -/
def lampDocument (catalog : Json.Value) : Document where
  specIdl := .ofList [("lamp", .definitions
    [{ Definition.ofKind .interface "Lamp" with
        members := [.ofKind .attr (some "glow")]
        attributes := [⟨"Exposed", some .wildcard, []⟩] }])]
  customIdl := .empty
  specCss := .empty
  customCss := .empty
  builtins := .empty
  catalog := catalog
  options := .standard

/-- A catalog with a test of the interface, whose setup code the attribute imports. -/
def lampTests (test : String) : Json.Value :=
  .object [("api", .object [("Lamp", .object
    [("__base", .string "const instance = 1;"), ("__test", .string test),
      ("glow", .string "<%api.Lamp:lamp%>return lamp;")])])]

/-- The node of the interface, without its test. -/
def lampNode : Catalog.Node :=
  { Catalog.Node.empty with
    base := some "const instance = 1;"
    children := [("glow",
      { Catalog.Node.empty with test := some "<%api.Lamp:lamp%>return lamp;" })] }

/-- The catalog that is read. -/
def lampCatalog (test : String) : Catalog where
  root := { Catalog.Node.empty with
    children := [("api", { Catalog.Node.empty with
      children := [("Lamp", { lampNode with test := some test })] })] }
  resources := .empty

theorem exists_of_toBool
    {result : Except BuildError Output}
    (h : result.toBool = true) :
    ∃ output, result = .ok output := by
  cases result with
  | error error =>
      cases h
  | ok output =>
      exact ⟨output, rfl⟩

/-- The test of the interface is no script in the first catalog, and names a node without setup
code in the second one.  The test of the attribute is the same in both. -/
theorem tables_lamp :
    ∃ left right,
      Output.ofReporting (lampDocument (lampTests "return (;")).table = .ok left ∧
      Output.ofReporting (lampDocument (lampTests "<%api.Shade:shade%>")).table = .ok right ∧
      left.table.keys = right.table.keys ∧
      ∀ test test', left.table.get? "api.Lamp.glow" = some test →
        right.table.get? "api.Lamp.glow" = some test' → test.code = test'.code := by
  have hleft : (Output.ofReporting (lampDocument (lampTests "return (;")).table).toBool = true := by
    decide +kernel
  have hright : (Output.ofReporting
      (lampDocument (lampTests "<%api.Shade:shade%>")).table).toBool = true := by
    decide +kernel
  obtain ⟨left, hleft⟩ := exists_of_toBool hleft
  obtain ⟨right, hright⟩ := exists_of_toBool hright
  have hdiffers : Catalog.DiffersAt ["api", "Lamp"] (lampCatalog "return (;")
      (lampCatalog "<%api.Shade:shade%>") :=
    ⟨.deeper _ [] [] (.deeper _ [] [] (.here lampNode _ _)), rfl⟩
  have hfirst : (lampDocument (lampTests "return (;")).loadCatalog =
      .ok (lampCatalog "return (;") := rfl
  obtain ⟨hkeys, htests⟩ := tables_of_differsAt hfirst rfl hdiffers hleft hright
  refine ⟨left, right, hleft, hright, hkeys, fun test test' htest htest' => ?_⟩
  exact (htests "api.Lamp.glow" test test' htest htest').2.2 (by decide)

end Build
end FeatureProbes
