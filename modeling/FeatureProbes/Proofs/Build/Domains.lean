import FeatureProbes.Proofs.Build.BuiltinTable
import FeatureProbes.Proofs.Build.Planned
import FeatureProbes.Proofs.Build.Properties
import FeatureProbes.Proofs.Text.Segments

/-!
# The domains of a build

Interfaces, style properties and built-in objects are the domains of a build.  The first segment of
a path tells its domain, whatever dots the names behind it have, so tests of different domains never
meet.  The table of a build is the disjoint union of three tables, each of which is made as if the
others were not.

The domains share the list of diagnostics.  A note that two of them make is listed once, at the
place of the first one.
-/

namespace FeatureProbes
namespace Build

open Catalog (holdsOfAnswers_orderly)
open Probe (CompiledTest Table TestCode)
open Reporting (Gives Orderly)
open WebIdl (Definition Merged)

/-- What a build makes tests of. -/
inductive Domain where
  | api
  | css
  | builtins
  deriving DecidableEq

/-- The first segment of the paths of a domain. -/
def Domain.name : Domain → String
  | api => "api"
  | css => "css"
  | builtins => "javascript"

/-- A path is one of a domain: its first segment is the name of the domain. -/
def Domain.Holds
    (domain : Domain)
    (path : String) : Prop :=
  ∃ rest, path = domain.name ++ "." ++ rest

/-- A path is one of a single domain. -/
theorem Domain.Holds.unique
    {first second : Domain} {path : String}
    (hfirst : first.Holds path)
    (hsecond : second.Holds path) :
    first = second := by
  have hplain : ∀ domain : Domain, '.' ∉ domain.name.toList := by
    intro domain
    cases domain <;> decide
  obtain ⟨rest, rfl⟩ := hfirst
  obtain ⟨rest', heq⟩ := hsecond
  have hname := ((Text.append_dot_inj (hplain first) (hplain second)).1 heq).1
  revert hname
  cases first <;> cases second <;> decide

/-- What stands behind a path does not change its domain. -/
theorem Domain.Holds.append
    {domain : Domain} {path : String}
    (more : String)
    (h : domain.Holds path) :
    domain.Holds (path ++ more) := by
  obtain ⟨rest, rfl⟩ := h
  exact ⟨rest ++ more, String.append_assoc⟩

/-! ## Paths of each domain -/

section Paths

theorem holds_interfacePath
    (name : String) :
    Domain.api.Holds ("api." ++ name) :=
  ⟨name, rfl⟩

theorem holds_propertyPath
    (name : String) :
    Domain.css.Holds (propertyPath name) :=
  Domain.Holds.append name ⟨"properties.", rfl⟩

theorem holds_builtinPath
    (name : String) :
    Domain.builtins.Holds (builtinPath name) :=
  Domain.Holds.append _ ⟨"builtins.", rfl⟩

theorem holds_of_planned
    {merged : Merged} {valid : NameSet} {catalog : Catalog} {path : String}
    {scopes : String → Prop}
    (h : Planned merged valid catalog path scopes) :
    Domain.api.Holds path := by
  cases h with
  | definition =>
      exact holds_interfacePath _
  | probe =>
      exact ((holds_interfacePath _).append _).append _
  | authored =>
      exact ((holds_interfacePath _).append _).append _
  | globalMember =>
      exact holds_interfacePath _

theorem holds_of_styledAt
    {spec : SpecProperties} {custom : CustomProperties} {path : String} {code : TestCode}
    (h : StyledAt spec custom path code) :
    Domain.css.Holds path := by
  cases h with
  | listed =>
      exact holds_propertyPath _
  | custom =>
      exact holds_propertyPath _
  | value =>
      exact ((holds_propertyPath _).append _).append _
  | group =>
      exact ((holds_propertyPath _).append _).append _

theorem holds_of_probedAt
    {name path : String} {builtin : Builtin} {code : TestCode}
    (h : ProbedAt name builtin path code) :
    Domain.builtins.Holds path := by
  cases h with
  | looked =>
      exact holds_builtinPath _
  | made =>
      exact ((holds_builtinPath _).append _).append _

end Paths

/-! ## Stages -/

/-- The tests of one domain of a document, made alone. -/
def Document.stage
    (document : Document)
    (domain : Domain) :
    Reporting Table := do
  let catalog ← Reporting.ofExcept document.loadCatalog
  match domain with
  | .api => do
      let spec ← Reporting.ofExcept document.specIdl.load
      let custom ← Reporting.ofExcept document.customIdl.load
      apiTable spec custom document.options.validScopes catalog
  | .css => cssTable document.specCss document.customCss catalog
  | .builtins => builtinTable document.builtins catalog document.options.testedScopes

section Stages

variable {catalog : Catalog} {table : Table}

theorem orderly_apiTable
    (spec custom : WebIdl.Fragments)
    (valid : NameSet) :
    Orderly (fun _ => True) (apiTable spec custom valid catalog) := by
  refine (Reporting.orderly_ofExcept _).bind fun merged => ?_
  refine (Reporting.orderly_ofExcept _).bind fun _ => ?_
  exact holdsOf_apiTests holdsOfAnswers_orderly (fun _ _ _ _ => Reporting.orderly_ofExcept _)
    (fun _ _ _ => Reporting.orderly_ofExcept _) fun _ _ => Reporting.orderly_ofExcept _

theorem orderly_cssTable
    (spec : SpecProperties)
    (custom : CustomProperties) :
    Orderly (fun _ => True) (cssTable spec custom catalog) :=
  holdsOf_cssTable holdsOfAnswers_orderly fun _ => Reporting.orderly_throw _

theorem orderly_builtinTable
    (builtins : Builtins)
    (exposure : List String) :
    Orderly (fun _ => True) (builtinTable builtins catalog exposure) :=
  holdsOf_builtinTable holdsOfAnswers_orderly builtins exposure

theorem holds_of_gives_apiTable
    {spec custom : WebIdl.Fragments} {valid : NameSet} {before after : Diagnostics} {path : String}
    (h : Gives (apiTable spec custom valid catalog) before table after)
    (hpath : path ∈ table.keys) :
    Domain.api.Holds path := by
  obtain ⟨merged, _, -, h⟩ := Reporting.gives_bind_iff.1 h
  obtain ⟨_, _, -, h⟩ := Reporting.gives_bind_iff.1 h
  obtain ⟨tests, rfl, hrealize⟩ := apiTests_realize h
  obtain ⟨test, htest⟩ := Option.isSome_iff_exists.1 (SortedMap.mem_keys_iff.1 hpath)
  obtain ⟨scopes, hplan⟩ := hrealize.exists_plan htest
  exact holds_of_planned hplan

theorem holds_of_gives_cssTable
    {spec : SpecProperties} {custom : CustomProperties} {before after : Diagnostics} {path : String}
    (h : Gives (cssTable spec custom catalog) before table after)
    (hpath : path ∈ table.keys) :
    Domain.css.Holds path := by
  have hmem := ((isTableOf_cssTable h).mem_keys_iff path).1 hpath
  obtain ⟨code, hstyled⟩ := mem_paths_cssProbes_iff.1 hmem
  exact holds_of_styledAt hstyled

theorem holds_of_gives_builtinTable
    {builtins : Builtins} {exposure : List String} {before after : Diagnostics} {path : String}
    (h : Gives (builtinTable builtins catalog exposure) before table after)
    (hpath : path ∈ table.keys) :
    Domain.builtins.Holds path := by
  have hmem := ((isTableOf_builtinTable h).mem_keys_iff path).1 hpath
  obtain ⟨entry, -, code, hprobed⟩ := mem_paths_builtinProbes_iff.1 hmem
  exact holds_of_probedAt hprobed

end Stages

/-! ## Disjoint unions -/

/-- A build gives what the stages give: each test is at a path of its stage's domain, and the
diagnostics are noted one stage after the other. -/
structure IsUnionOf
    (stages : Domain → Output)
    (output : Output) : Prop where
  holds : ∀ domain path, path ∈ (stages domain).table.keys → domain.Holds path
  table : output.table =
    ((stages .api).table.insertTests (stages .css).table.entries).insertTests
      (stages .builtins).table.entries
  diagnostics : output.diagnostics = Diagnostics.reportAll []
    ((stages .api).diagnostics ++ (stages .css).diagnostics ++ (stages .builtins).diagnostics)

section Union

variable {document : Document} {output : Output} {stages : Domain → Output}

/-- Where a build comes to an end, so does each of its stages alone. -/
theorem exists_stages
    (h : Output.ofReporting document.table = .ok output) :
    ∃ stages : Domain → Output,
      (∀ domain, Output.ofReporting (document.stage domain) = .ok (stages domain)) ∧
      IsUnionOf stages output := by
  obtain ⟨catalog, _, hcatalog, h⟩ := Reporting.gives_bind_iff.1 (ofReporting_eq_ok_iff.1 h)
  obtain ⟨-, rfl⟩ := Reporting.gives_ofExcept_iff.1 hcatalog
  obtain ⟨spec, _, hspec, h⟩ := Reporting.gives_bind_iff.1 h
  obtain ⟨-, rfl⟩ := Reporting.gives_ofExcept_iff.1 hspec
  obtain ⟨custom, _, hcustom, h⟩ := Reporting.gives_bind_iff.1 h
  obtain ⟨-, rfl⟩ := Reporting.gives_ofExcept_iff.1 hcustom
  obtain ⟨api, first, hapi, h⟩ := Reporting.gives_bind_iff.1 h
  obtain ⟨css, second, hcss, h⟩ := Reporting.gives_bind_iff.1 h
  obtain ⟨builtins, third, hbuiltins, h⟩ := Reporting.gives_bind_iff.1 h
  obtain ⟨htable, rfl⟩ := Reporting.gives_pure_iff.1 h
  -- Started from no diagnostics, each stage gives the same table and notes its own diagnostics.
  obtain ⟨apiNotes, hapiAlone, rfl⟩ := (orderly_apiTable _ _ _).exists_gives_nil hapi
  obtain ⟨cssNotes, hcssAlone, rfl⟩ := (orderly_cssTable _ _).exists_gives_nil hcss
  obtain ⟨builtinNotes, hbuiltinsAlone, hthird⟩ :=
    (orderly_builtinTable _ _).exists_gives_nil hbuiltins
  refine ⟨fun
    | .api => ⟨api, apiNotes⟩
    | .css => ⟨css, cssNotes⟩
    | .builtins => ⟨builtins, builtinNotes⟩, ?_, ?_, htable.symm, ?_⟩
  · intro domain
    rw [ofReporting_eq_ok_iff]
    cases domain with
    | api =>
        refine Reporting.gives_bind_iff.2 ⟨catalog, [], hcatalog, ?_⟩
        refine Reporting.gives_bind_iff.2 ⟨spec, [], hspec, ?_⟩
        exact Reporting.gives_bind_iff.2 ⟨custom, [], hcustom, hapiAlone⟩
    | css =>
        exact Reporting.gives_bind_iff.2 ⟨catalog, [], hcatalog, hcssAlone⟩
    | builtins =>
        exact Reporting.gives_bind_iff.2 ⟨catalog, [], hcatalog, hbuiltinsAlone⟩
  · intro domain path hpath
    cases domain with
    | api =>
        exact holds_of_gives_apiTable hapi hpath
    | css =>
        exact holds_of_gives_cssTable hcss hpath
    | builtins =>
        exact holds_of_gives_builtinTable hbuiltins hpath
  · rw [hthird, Diagnostics.reportAll_append, Diagnostics.reportAll_append]

theorem IsUnionOf.not_mem_keys
    {domain other : Domain} {path : String}
    (h : IsUnionOf stages output)
    (hne : domain ≠ other)
    (hpath : path ∈ (stages domain).table.keys) :
    path ∉ (stages other).table.keys :=
  fun hother => hne ((h.holds domain path hpath).unique (h.holds other path hother))

/-- The test at a path is that of one of the stages. -/
theorem IsUnionOf.get?_eq_some_iff
    {path : String} {test : CompiledTest}
    (h : IsUnionOf stages output) :
    output.table.get? path = some test ↔
      ∃ domain, (stages domain).table.get? path = some test := by
  have hkeys : ∀ {domain test}, (stages domain).table.get? path = some test →
      path ∈ (stages domain).table.keys :=
    fun htest => SortedMap.mem_keys_iff.2 (by rw [htest]; rfl)
  have hnone : ∀ {domain test} other, domain ≠ other →
      (stages domain).table.get? path = some test → (stages other).table.get? path = none := by
    intro domain test other hne htest
    rw [← Option.not_isSome_iff_eq_none, ← SortedMap.mem_keys_iff]
    exact h.not_mem_keys hne (hkeys htest)
  have hdisjoint : ∀ path ∈ (stages .api).table.keys, path ∉ (stages .css).table.keys :=
    fun path => h.not_mem_keys (by decide)
  have hfirst := Table.get?_insertTests_entries hdisjoint
  have hsecond : ∀ path ∈ ((stages .api).table.insertTests (stages .css).table.entries).keys,
      path ∉ (stages .builtins).table.keys := by
    intro path hpath
    rw [SortedMap.mem_keys_iff, hfirst, Option.isSome_or, Bool.or_eq_true, ← SortedMap.mem_keys_iff,
      ← SortedMap.mem_keys_iff] at hpath
    rcases hpath with hpath | hpath
    · exact h.not_mem_keys (by decide) hpath
    · exact h.not_mem_keys (by decide) hpath
  rw [h.table, Table.get?_insertTests_entries hsecond, hfirst]
  constructor
  · intro htest
    rcases Option.or_eq_some_iff.1 htest with htest | ⟨-, htest⟩
    · rcases Option.or_eq_some_iff.1 htest with htest | ⟨-, htest⟩
      · exact ⟨.api, htest⟩
      · exact ⟨.css, htest⟩
    · exact ⟨.builtins, htest⟩
  · rintro ⟨domain, htest⟩
    cases domain with
    | api =>
        simp [htest]
    | css =>
        simp [htest, hnone .api (by decide) htest]
    | builtins =>
        simp [htest, hnone .api (by decide) htest, hnone .css (by decide) htest]

/-- Two documents have the same catalog and the same options, and what they list differs in one
domain at most. -/
structure DiffersIn
    (domain : Domain)
    (first second : Document) : Prop where
  catalog : first.catalog = second.catalog
  options : first.options = second.options
  api : domain ≠ .api →
    first.specIdl = second.specIdl ∧ first.customIdl = second.customIdl
  css : domain ≠ .css →
    first.specCss = second.specCss ∧ first.customCss = second.customCss
  builtins : domain ≠ .builtins → first.builtins = second.builtins

theorem DiffersIn.stage_eq
    {domain other : Domain} {second : Document}
    (h : DiffersIn domain document second)
    (hother : domain ≠ other) :
    document.stage other = second.stage other := by
  have hcatalog : document.loadCatalog = second.loadCatalog := by
    rw [Document.loadCatalog, Document.loadCatalog, h.catalog]
  rw [Document.stage, Document.stage, hcatalog]
  cases other with
  | api =>
      obtain ⟨hspec, hcustom⟩ := h.api hother
      rw [hspec, hcustom, h.options]
  | css =>
      obtain ⟨hspec, hcustom⟩ := h.css hother
      rw [hspec, hcustom]
  | builtins =>
      rw [h.builtins hother, h.options]

/-- The table of a build is the disjoint union of the tables of its stages, whose keys begin with
different segments.  So where two documents differ in one domain, their tables are the same at every
path that is not of this domain.  The diagnostics are those of the stages, one after the other,
without repeats. -/
theorem table_eq_union_of_stages
    (h : Output.ofReporting document.table = .ok output) :
    ∃ stages : Domain → Output,
      (∀ domain, Output.ofReporting (document.stage domain) = .ok (stages domain)) ∧
      (∀ domain, ∀ path ∈ (stages domain).table.keys, domain.Holds path) ∧
      (∀ domain other, domain ≠ other →
        ∀ path ∈ (stages domain).table.keys, path ∉ (stages other).table.keys) ∧
      (∀ path test, output.table.get? path = some test ↔
        ∃ domain, (stages domain).table.get? path = some test) ∧
      (∀ domain second result, DiffersIn domain document second →
        Output.ofReporting second.table = .ok result →
        ∀ path, ¬domain.Holds path → result.table.get? path = output.table.get? path) ∧
      output.diagnostics.Nodup ∧
      output.diagnostics =
        ((stages .api).diagnostics ++ (stages .css).diagnostics ++
          (stages .builtins).diagnostics).eraseDups := by
  obtain ⟨stages, hstages, hunion⟩ := exists_stages h
  refine ⟨stages, hstages, hunion.holds, fun domain other hne path => hunion.not_mem_keys hne,
    fun path test => hunion.get?_eq_some_iff, ?_, ?_, ?_⟩
  · intro domain second result hdiffers hresult path hpath
    obtain ⟨others, hothers, hsecond⟩ := exists_stages hresult
    have hsame : ∀ other, domain ≠ other → others other = stages other := by
      intro other hne
      have hstage := hstages other
      rw [hdiffers.stage_eq hne, hothers other] at hstage
      exact Except.ok.inj hstage
    have helsewhere : ∀ {row : Domain → Output} {made : Output} {other : Domain} {test},
        IsUnionOf row made → (row other).table.get? path = some test → domain ≠ other := by
      rintro row made other test hrow htest rfl
      exact hpath (hrow.holds _ path (SortedMap.mem_keys_iff.2 (by rw [htest]; rfl)))
    refine Option.ext fun test => ?_
    rw [hunion.get?_eq_some_iff, hsecond.get?_eq_some_iff]
    constructor
    · rintro ⟨other, htest⟩
      exact ⟨other, hsame other (helsewhere hsecond htest) ▸ htest⟩
    · rintro ⟨other, htest⟩
      exact ⟨other, (hsame other (helsewhere hunion htest)).symm ▸ htest⟩
  · rw [hunion.diagnostics]
    exact Diagnostics.nodup_reportAll _ List.nodup_nil
  · rw [hunion.diagnostics, Diagnostics.reportAll_eq]
    simp [List.removeAll]

end Union

/-- A document whose names look like paths of other domains.  The test of the interface and that of
the style property, if it is listed, share setup code that imports a node that is not there. -/
def lantern (properties : List String) : Document where
  specIdl := .ofList [("lantern", .definitions
    [{ Definition.ofKind .interface "Lantern" with
        attributes := [⟨"Exposed", some .wildcard, []⟩] }])]
  customIdl := .empty
  specCss := .ofList [("glow", properties)]
  customCss := .empty
  builtins := .ofList [("css.properties.glow", ⟨none, none⟩)]
  catalog := .object
    [("api", .object
      [("Lantern", .object [("__test", .string "<%api.Wick:instance%>")]),
        ("Wick", .object [("__base", .string "<%oil:oil%>")])]),
      ("css", .object [("properties", .object [("api", .object
        [("Lantern", .object [("__test", .string "<%api.Wick:instance%>")])])])])]
  options := .standard

/-- What is noted about the setup code, once for both tests. -/
def lanternNote : Diagnostic where
  code := "P-DIAG-IMPORT"
  path := "api.Wick"
  message := "Test is malformed: <%oil:oil%> is an invalid import reference"

theorem exists_of_toOption
    {result : Except BuildError Output} {notes : Diagnostics}
    (h : (result.map Output.diagnostics).toOption = some notes) :
    ∃ output, result = .ok output ∧ output.diagnostics = notes := by
  cases result with
  | error error =>
      cases h
  | ok output =>
      exact ⟨output, rfl, Option.some_inj.1 h⟩

/-- Without the property the test of the interface is the same. -/
theorem table_lantern :
    ∃ (left right : Output) (stages : Domain → Output),
      Output.ofReporting (lantern ["api.Lantern"]).table = .ok left ∧
      Output.ofReporting (lantern []).table = .ok right ∧
      left.diagnostics = [lanternNote] ∧
      left.diagnostics =
        ((stages .api).diagnostics ++ (stages .css).diagnostics ++
          (stages .builtins).diagnostics).eraseDups ∧
      right.table.get? "api.Lantern" = left.table.get? "api.Lantern" := by
  have hleft : ((Output.ofReporting (lantern ["api.Lantern"]).table).map
      Output.diagnostics).toOption = some [lanternNote] := by
    decide +kernel
  have hright : ((Output.ofReporting (lantern []).table).map
      Output.diagnostics).toOption = some [lanternNote] := by
    decide +kernel
  obtain ⟨left, hleft, hnotes⟩ := exists_of_toOption hleft
  obtain ⟨right, hright, -⟩ := exists_of_toOption hright
  have hdiffers : DiffersIn .css (lantern ["api.Lantern"]) (lantern []) :=
    ⟨rfl, rfl, fun _ => ⟨rfl, rfl⟩, fun h => absurd rfl h, fun _ => rfl⟩
  obtain ⟨stages, -, -, -, -, hsame, -, hdiagnostics⟩ := table_eq_union_of_stages hleft
  refine ⟨left, right, stages, hleft, hright, hnotes, hdiagnostics, ?_⟩
  refine hsame .css _ right hdiffers hright "api.Lantern" fun hpath => ?_
  exact absurd (hpath.unique (holds_interfacePath "Lantern")) (by decide)

end Build
end FeatureProbes
