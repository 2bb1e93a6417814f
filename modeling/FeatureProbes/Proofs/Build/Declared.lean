import FeatureProbes.Proofs.Build.DefaultCode
import FeatureProbes.Proofs.Probe.Table
import FeatureProbes.Proofs.Reporting
import FeatureProbes.Proofs.Text.Segments

/-!
# What definitions declare

A definition declares itself and every name under which one of its members can be observed.  Some
members can be observed under several names, and some under none.

Where a catalog says nothing about interfaces, the tests are those of the declared names: there is
one at every declared path and nowhere else, and of several declarations of a path the first one
decides on the code.
-/

namespace FeatureProbes
namespace Build

open Catalog (Override)
open Probe (CompiledTest Table TestCode)
open Reporting (Gives Yields)
open WebIdl (Definition GlobalMember Member Merged)

/-! ## Observable names -/

/-- The names under which a member of a definition can be observed. -/
inductive Observable (definition : Definition) (member : Member) : String → Prop where
  | named {name : String}
      (hkind : member.kind = .attr ∨ member.kind = .operation)
      (hname : member.name = some name) :
      Observable definition member name
  | text
      (hkind : member.kind = .attr ∨ member.kind = .operation)
      (hspecial : member.special = some .stringifier) :
      Observable definition member "toString"
  /-- Elements that only markup can make have no constructor. -/
  | construct
      (hkind : member.kind = .constructor)
      (hmarkup : ¬member.hasAttribute "HTMLConstructor") :
      Observable definition member definition.name
  | iterable {name : String}
      (hkind : member.kind = .iterable)
      (hsync : ¬member.isAsync)
      (hname : name ∈ ["@@iterator", "entries", "forEach", "keys", "values"]) :
      Observable definition member name
  | asyncIterable {name : String}
      (hkind : member.kind = .iterable)
      (hasync : member.isAsync)
      (hname : name ∈ ["@@asyncIterator", "values"]) :
      Observable definition member name
  /-- Asynchronous iterables of pairs have the methods for keys in addition. -/
  | asyncPairs {name : String}
      (hkind : member.kind = .iterable)
      (hasync : member.isAsync)
      (hpairs : member.typeArgs.length = 2)
      (hname : name ∈ ["entries", "keys"]) :
      Observable definition member name
  | maplike {name : String}
      (hkind : member.kind = .maplike)
      (hname : name ∈
        ["@@iterator", "entries", "forEach", "get", "has", "keys", "size", "values"]) :
      Observable definition member name
  | maplikeMutator {name : String}
      (hkind : member.kind = .maplike)
      (hmutable : ¬member.readonly)
      (hname : name ∈ ["clear", "delete", "set"]) :
      Observable definition member name
  | setlike {name : String}
      (hkind : member.kind = .setlike)
      (hname : name ∈ ["@@iterator", "entries", "forEach", "has", "keys", "size", "values"]) :
      Observable definition member name
  | setlikeMutator {name : String}
      (hkind : member.kind = .setlike)
      (hmutable : ¬member.readonly)
      (hname : name ∈ ["add", "clear", "delete"]) :
      Observable definition member name

/-- The name of the further constructor that the first attribute for one gives. -/
def IsFactory
    (definition : Definition)
    (name : String) : Prop :=
  ∃ found,
    definition.attribute? "LegacyFactoryFunction" = some found ∧
    found.value = some (.identifier name)

section Observable

variable {definition : Definition} {member : Member} {name : String}

theorem mem_names_propertiesOf_iff
    {names : List String} :
    name ∈ (propertiesOf member names).map ProbeMember.name ↔ name ∈ names := by
  simp [propertiesOf]

theorem mem_names_probesOfOperation_iff :
    name ∈ (probesOfOperation definition member).map ProbeMember.name ↔
      member.name = some name ∨ member.special = some .stringifier ∧ name = "toString" := by
  rw [probesOfOperation, List.map_append, List.mem_append]
  refine or_congr ?_ ?_
  · cases member.name with
    | none =>
        simp
    | some other =>
        simp [eq_comm]
  · by_cases hspecial : member.special = some .stringifier
    · simp [hspecial, propertiesOf]
    · simp [hspecial]

theorem mem_names_probesOfIterable_iff :
    name ∈ (probesOfIterable member).map ProbeMember.name ↔
      ¬member.isAsync ∧ name ∈ ["@@iterator", "entries", "forEach", "keys", "values"] ∨
        member.isAsync ∧ name ∈ ["@@asyncIterator", "values"] ∨
          member.isAsync ∧ member.typeArgs.length = 2 ∧ name ∈ ["entries", "keys"] := by
  rw [probesOfIterable]
  by_cases hasync : member.isAsync
  · by_cases hpairs : member.typeArgs.length = 2
    · simp [hasync, hpairs, propertiesOf, symbolOf, asyncPairMethods, or_assoc]
    · simp [hasync, hpairs, propertiesOf, symbolOf]
  · simp [hasync, propertiesOf, symbolOf, iterableMethods]

theorem mem_names_probesOfCollection_iff
    {methods mutators : List String} :
    name ∈ (probesOfCollection member methods mutators).map ProbeMember.name ↔
      name ∈ "@@iterator" :: methods ∨ ¬member.readonly ∧ name ∈ mutators := by
  rw [probesOfCollection, List.map_cons, List.mem_cons, mem_names_propertiesOf_iff]
  by_cases hreadonly : member.readonly
  · simp [hreadonly, symbolOf]
  · simp [hreadonly, symbolOf, or_assoc]

theorem mem_names_probesOfOperation_iff_observable
    (hkind : member.kind = .attr ∨ member.kind = .operation) :
    name ∈ (probesOfOperation definition member).map ProbeMember.name ↔
      Observable definition member name := by
  rw [mem_names_probesOfOperation_iff]
  constructor
  · rintro (hname | ⟨hspecial, rfl⟩)
    · exact .named hkind hname
    · exact .text hkind hspecial
  · intro h
    cases h with
    | named _ hname =>
        exact Or.inl hname
    | text _ hspecial =>
        exact Or.inr ⟨hspecial, rfl⟩
    | _ =>
        simp_all

/-- A member is probed under the names under which it can be observed. -/
theorem mem_names_probesOfMember_iff :
    name ∈ (probesOfMember definition member).map ProbeMember.name ↔
      Observable definition member name := by
  rw [probesOfMember]
  cases hkind : member.kind with
  | attr =>
      exact mem_names_probesOfOperation_iff_observable (Or.inl hkind)
  | operation =>
      exact mem_names_probesOfOperation_iff_observable (Or.inr hkind)
  | constructor =>
      dsimp only
      constructor
      · intro h
        split at h
        · simp at h
        · rename_i hmarkup
          rw [List.map_singleton, List.mem_singleton] at h
          exact h ▸ .construct hkind hmarkup
      · intro h
        cases h with
        | construct _ hmarkup =>
            simp [hmarkup]
        | _ =>
            simp_all
  | iterable =>
      refine mem_names_probesOfIterable_iff.trans ⟨?_, ?_⟩
      · rintro (⟨hsync, hname⟩ | ⟨hasync, hname⟩ | ⟨hasync, hpairs, hname⟩)
        · exact .iterable hkind hsync hname
        · exact .asyncIterable hkind hasync hname
        · exact .asyncPairs hkind hasync hpairs hname
      · intro h
        cases h with
        | iterable _ hsync hname =>
            exact Or.inl ⟨hsync, hname⟩
        | asyncIterable _ hasync hname =>
            exact Or.inr (Or.inl ⟨hasync, hname⟩)
        | asyncPairs _ hasync hpairs hname =>
            exact Or.inr (Or.inr ⟨hasync, hpairs, hname⟩)
        | _ =>
            simp_all
  | maplike =>
      refine mem_names_probesOfCollection_iff.trans ⟨?_, ?_⟩
      · rintro (hname | ⟨hmutable, hname⟩)
        · exact .maplike hkind hname
        · exact .maplikeMutator hkind hmutable hname
      · intro h
        cases h with
        | maplike _ hname =>
            exact Or.inl hname
        | maplikeMutator _ hmutable hname =>
            exact Or.inr ⟨hmutable, hname⟩
        | _ =>
            simp_all
  | setlike =>
      refine mem_names_probesOfCollection_iff.trans ⟨?_, ?_⟩
      · rintro (hname | ⟨hmutable, hname⟩)
        · exact .setlike hkind hname
        · exact .setlikeMutator hkind hmutable hname
      · intro h
        cases h with
        | setlike _ hname =>
            exact Or.inl hname
        | setlikeMutator _ hmutable hname =>
            exact Or.inr ⟨hmutable, hname⟩
        | _ =>
            simp_all
  | const =>
      refine iff_of_false (by simp) ?_
      intro h
      cases h <;> simp_all
  | field =>
      refine iff_of_false (by simp) ?_
      intro h
      cases h <;> simp_all

theorem mem_names_factoryOf_iff :
    name ∈ (factoryOf definition).map ProbeMember.name ↔ IsFactory definition name := by
  rw [factoryOf, IsFactory]
  cases definition.attribute? "LegacyFactoryFunction" with
  | none =>
      simp
  | some found =>
      cases hvalue : found.value with
      | none =>
          simp [hvalue]
      | some value =>
          cases value with
          | identifier other =>
              simp [hvalue, eq_comm]
          | _ =>
              simp [hvalue]

/-- A definition is probed for the names of its members and of its further constructor. -/
theorem mem_names_probesOf_iff :
    name ∈ (probesOf definition).map ProbeMember.name ↔
      (∃ member ∈ definition.members, Observable definition member name) ∨
        IsFactory definition name := by
  rw [probesOf, List.map_append, List.mem_append, mem_names_factoryOf_iff, List.map_flatMap,
    List.mem_flatMap]
  simp only [mem_names_probesOfMember_iff]

end Observable

/-! ## Declarations -/

/-- The paths and default probes that a definition declares: its own, then those of its members in
their order. -/
def declaredBy (definition : Definition) : List (String × TestCode) :=
  ("api." ++ definition.name, .member (.of "self" definition.name)) ::
    (probesOf definition).map fun probe =>
      ("api." ++ definition.name ++ "." ++ probe.name, defaultCode definition probe)

/-- The path and default probe of a global member, unless it is a constant or has no name. -/
def declaredGlobally (item : GlobalMember) : List (String × TestCode) :=
  match item.member.name with
  | none => []
  | some name =>
      if item.member.kind = .const then [] else [("api." ++ name, .member (.of "self" name))]

/-- All that merged definitions declare, in order. -/
def declared (merged : Merged) : List (String × TestCode) :=
  (merged.definitions.filter isTested).flatMap declaredBy ++
    merged.globals.flatMap declaredGlobally

/-- The paths that merged definitions declare. -/
inductive Declared (merged : Merged) : String → Prop where
  | definition {definition : Definition}
      (hmem : definition ∈ merged.definitions)
      (hkind : definition.kind = .interface ∨ definition.kind = .nameSpace)
      (hnamespace : ¬definition.hasAttribute "LegacyNamespace") :
      Declared merged ("api." ++ definition.name)
  | member {definition : Definition} {member : Member} {name : String}
      (hmem : definition ∈ merged.definitions)
      (hkind : definition.kind = .interface ∨ definition.kind = .nameSpace)
      (hnamespace : ¬definition.hasAttribute "LegacyNamespace")
      (hmember : member ∈ definition.members)
      (hname : Observable definition member name) :
      Declared merged ("api." ++ definition.name ++ "." ++ name)
  | factory {definition : Definition} {name : String}
      (hmem : definition ∈ merged.definitions)
      (hkind : definition.kind = .interface ∨ definition.kind = .nameSpace)
      (hnamespace : ¬definition.hasAttribute "LegacyNamespace")
      (hname : IsFactory definition name) :
      Declared merged ("api." ++ definition.name ++ "." ++ name)
  | globalMember {item : GlobalMember} {name : String}
      (hitem : item ∈ merged.globals)
      (hname : item.member.name = some name)
      (hkind : item.member.kind ≠ .const) :
      Declared merged ("api." ++ name)

theorem isTested_iff
    {definition : Definition} :
    isTested definition ↔
      (definition.kind = .interface ∨ definition.kind = .nameSpace) ∧
        ¬definition.hasAttribute "LegacyNamespace" := by
  have hprobed : definition.kind.isProbed = true ↔
      definition.kind = .interface ∨ definition.kind = .nameSpace := by
    cases definition.kind <;> simp [WebIdl.DefinitionKind.isProbed]
  rw [isTested, Bool.and_eq_true, hprobed, Bool.not_eq_true', Bool.not_eq_true]

theorem mem_paths_declaredBy_iff
    {definition : Definition} {path : String} :
    path ∈ (declaredBy definition).map Prod.fst ↔
      path = "api." ++ definition.name ∨
        ∃ name, ((∃ member ∈ definition.members, Observable definition member name) ∨
            IsFactory definition name) ∧
          path = "api." ++ definition.name ++ "." ++ name := by
  rw [declaredBy, List.map_cons, List.mem_cons, List.map_map]
  refine or_congr_right ?_
  simp only [← mem_names_probesOf_iff, List.mem_map, Function.comp]
  constructor
  · rintro ⟨probe, hprobe, rfl⟩
    exact ⟨probe.name, ⟨probe, hprobe, rfl⟩, rfl⟩
  · rintro ⟨_, ⟨probe, hprobe, rfl⟩, rfl⟩
    exact ⟨probe, hprobe, rfl⟩

theorem mem_paths_declaredGlobally_iff
    {item : GlobalMember} {path : String} :
    path ∈ (declaredGlobally item).map Prod.fst ↔
      ∃ name, item.member.name = some name ∧ item.member.kind ≠ .const ∧ path = "api." ++ name := by
  rw [declaredGlobally]
  cases item.member.name with
  | none =>
      simp
  | some name =>
      by_cases hkind : item.member.kind = .const
      · simp [hkind]
      · simp [hkind]

theorem mem_paths_declared_iff
    {merged : Merged} {path : String} :
    path ∈ (declared merged).map Prod.fst ↔ Declared merged path := by
  rw [declared, List.map_append, List.mem_append, List.map_flatMap, List.map_flatMap,
    List.mem_flatMap, List.mem_flatMap]
  simp only [mem_paths_declaredBy_iff, mem_paths_declaredGlobally_iff, List.mem_filter,
    isTested_iff]
  constructor
  · rintro (⟨definition, ⟨hmem, hkind, hnamespace⟩,
        rfl | ⟨name, ⟨member, hmember, hname⟩ | hname, rfl⟩⟩ |
      ⟨item, hitem, name, hname, hkind, rfl⟩)
    · exact .definition hmem hkind hnamespace
    · exact .member hmem hkind hnamespace hmember hname
    · exact .factory hmem hkind hnamespace hname
    · exact .globalMember hitem hname hkind
  · intro h
    cases h with
    | definition hmem hkind hnamespace =>
        exact Or.inl ⟨_, ⟨hmem, hkind, hnamespace⟩, Or.inl rfl⟩
    | member hmem hkind hnamespace hmember hname =>
        exact Or.inl ⟨_, ⟨hmem, hkind, hnamespace⟩, Or.inr ⟨_, Or.inl ⟨_, hmember, hname⟩, rfl⟩⟩
    | factory hmem hkind hnamespace hname =>
        exact Or.inl ⟨_, ⟨hmem, hkind, hnamespace⟩, Or.inr ⟨_, Or.inr hname, rfl⟩⟩
    | globalMember hitem hname hkind =>
        exact Or.inr ⟨_, hitem, _, hname, hkind, rfl⟩

/-! ## Tests where the catalog is silent -/

section Silent

variable {catalog : Catalog} {valid : NameSet} {definition : Definition} {merged : Merged}

theorem node?_interfacePath_eq_none
    (hsilent : catalog.root.child? "api" = none)
    (name : String) :
    catalog.node? (Catalog.interfacePath name) = none := by
  have hpath : Catalog.interfacePath name = "api" ++ "." ++ name := rfl
  rw [Catalog.node?, hpath, Text.segments_append_dot name (by decide), Catalog.Node.descendant?,
    hsilent, Option.bind_none]

theorem interfaceTest_of_silent
    (hsilent : catalog.root.child? "api" = none)
    (name : String) :
    catalog.interfaceTest name = pure Override.none := by
  unfold Catalog.interfaceTest
  simp only [node?_interfacePath_eq_none hsilent name]

theorem memberTest_of_silent
    (hsilent : catalog.root.child? "api" = none)
    (name member : String)
    (kind : ProbeKind) :
    catalog.memberTest name member kind = pure Override.none := by
  unfold Catalog.memberTest
  simp only [node?_interfacePath_eq_none hsilent name]

theorem subtests_of_silent
    (hsilent : catalog.root.child? "api" = none)
    (name : String)
    (known : NameSet) :
    catalog.subtests name known = pure .empty := by
  unfold Catalog.subtests
  simp only [node?_interfacePath_eq_none hsilent name]

/-- The path and the code of a test. -/
def pathAndCode (test : String × CompiledTest) : String × String :=
  (test.1, test.2.code)

/-- The path and the code of a declaration. -/
def compiled (declaration : String × TestCode) : String × String :=
  (declaration.1, declaration.2.compile)

theorem pathAndCode_memberEntry
    {exposure : NameSet} {probe : ProbeMember} {test : String × CompiledTest}
    (hsilent : catalog.root.child? "api" = none)
    (h : Yields (memberEntry catalog valid definition exposure probe) test) :
    pathAndCode test =
      ("api." ++ definition.name ++ "." ++ probe.name, (defaultCode definition probe).compile) := by
  obtain ⟨before, after, h⟩ := h
  rw [memberEntry, memberTest_of_silent hsilent] at h
  obtain ⟨narrowed, middle, -, h⟩ := Reporting.gives_bind_iff.1 h
  obtain ⟨custom, last, hcustom, h⟩ := Reporting.gives_bind_iff.1 h
  obtain ⟨rfl, -⟩ := Reporting.gives_pure_iff.1 hcustom
  obtain ⟨rfl, -⟩ := Reporting.gives_pure_iff.1 h
  rfl

theorem pathAndCode_definitionEntries
    (hsilent : catalog.root.child? "api" = none)
    (definition : Definition)
    (tests : List (String × CompiledTest))
    (h : Yields (definitionEntries catalog valid definition) tests) :
    tests.map pathAndCode = (declaredBy definition).map compiled := by
  obtain ⟨before, after, h⟩ := h
  rw [definitionEntries, interfaceTest_of_silent hsilent] at h
  obtain ⟨exposure, first, -, h⟩ := Reporting.gives_bind_iff.1 h
  obtain ⟨custom, second, hcustom, h⟩ := Reporting.gives_bind_iff.1 h
  obtain ⟨rfl, rfl⟩ := Reporting.gives_pure_iff.1 hcustom
  obtain ⟨members, third, hmembers, h⟩ := Reporting.gives_bind_iff.1 h
  obtain ⟨subtests, last, hsubtests, h⟩ := Reporting.gives_bind_iff.1 h
  obtain ⟨rfl, -⟩ := Reporting.gives_pure_iff.1 h
  have hnone : subtests = [] := by
    rw [subtestEntries, subtests_of_silent hsilent] at hsubtests
    exact (Reporting.gives_pure_iff.1 hsubtests).1.symm
  have hall : members.map pathAndCode = (probesOf definition).map fun probe =>
      compiled
        ("api." ++ definition.name ++ "." ++ probe.name, defaultCode definition probe) := by
    refine hmembers.map_eq_of_mapM ?_
    intro probe test htest
    exact pathAndCode_memberEntry hsilent htest
  rw [hnone, List.append_nil, List.map_cons, hall, declaredBy, List.map_cons, List.map_map]
  rfl

theorem pathAndCode_globalEntry
    (hsilent : catalog.root.child? "api" = none)
    (item : GlobalMember)
    (tests : List (String × CompiledTest))
    (h : Yields (globalEntry catalog valid merged item) tests) :
    tests.map pathAndCode = (declaredGlobally item).map compiled := by
  obtain ⟨before, after, h⟩ := h
  rw [globalEntry] at h
  rw [declaredGlobally]
  cases hname : item.member.name with
  | none =>
      simp only [hname] at h
      obtain ⟨rfl, -⟩ := Reporting.gives_pure_iff.1 h
      rfl
  | some name =>
      simp only [hname] at h
      by_cases hkind : item.member.kind = .const
      · simp only [hkind] at h
        obtain ⟨rfl, -⟩ := Reporting.gives_pure_iff.1 h
        simp [hkind]
      · rw [if_neg (by simpa using hkind), interfaceTest_of_silent hsilent] at h
        obtain ⟨exposure, first, -, h⟩ := Reporting.gives_bind_iff.1 h
        obtain ⟨narrowed, second, -, h⟩ := Reporting.gives_bind_iff.1 h
        obtain ⟨custom, third, hcustom, h⟩ := Reporting.gives_bind_iff.1 h
        obtain ⟨rfl, -⟩ := Reporting.gives_pure_iff.1 hcustom
        obtain ⟨rfl, -⟩ := Reporting.gives_pure_iff.1 h
        dsimp only
        rw [if_neg hkind]
        rfl

/-- The paths and the codes of all tests are those of the declarations, in order. -/
theorem exists_tests_of_silent
    {before after : Diagnostics} {table : Table}
    (hsilent : catalog.root.child? "api" = none)
    (h : Gives (apiTests merged valid catalog) before table after) :
    ∃ tests, table = Table.ofTests tests ∧
      tests.map pathAndCode = (declared merged).map compiled := by
  rw [apiTests] at h
  obtain ⟨definitions, first, hdefinitions, h⟩ := Reporting.gives_bind_iff.1 h
  obtain ⟨globals, second, hglobals, h⟩ := Reporting.gives_bind_iff.1 h
  obtain ⟨rfl, -⟩ := Reporting.gives_pure_iff.1 h
  have hfirst := hdefinitions.map_eq_of_mapM (pathAndCode_definitionEntries hsilent)
  have hsecond := hglobals.map_eq_of_mapM (pathAndCode_globalEntry hsilent)
  refine ⟨_, rfl, ?_⟩
  rw [declared, List.map_append, List.map_append, List.map_flatten, List.map_flatten, hfirst,
    hsecond, ← List.flatMap_def, ← List.flatMap_def, List.map_flatMap, List.map_flatMap]

end Silent

theorem find?_path_map
    {tests : List (String × CompiledTest)} {declarations : List (String × TestCode)}
    (h : tests.map pathAndCode = declarations.map compiled)
    (path : String) :
    ((tests.find? fun test => test.1 = path).map fun test => test.2.code) =
      (declarations.find? fun item => item.1 = path).map fun item => item.2.compile := by
  have hfind := congrArg (List.find? fun item : String × String => item.1 = path) h
  rw [List.find?_map, List.find?_map] at hfind
  have hcode := congrArg (Option.map Prod.snd) hfind
  rw [Option.map_map, Option.map_map] at hcode
  exact hcode

/-- Where a catalog has no interfaces, there are tests at just the paths that merged definitions
declare, and the code at a path is the default probe of the first declaration of this path, in the
order of the definitions, their members and the names of these. -/
theorem apiTests_of_silent
    {catalog : Catalog} {valid : NameSet} {merged : Merged} {before after : Diagnostics}
    {table : Table}
    (hsilent : catalog.root.child? "api" = none)
    (h : Gives (apiTests merged valid catalog) before table after) :
    (∀ path, path ∈ table.keys ↔ Declared merged path) ∧
      ∀ path test, table.get? path = some test →
        ∃ code, (declared merged).find? (fun item => item.1 = path) = some (path, code) ∧
          test.code = code.compile := by
  obtain ⟨tests, rfl, htests⟩ := exists_tests_of_silent hsilent h
  constructor
  · intro path
    have hpaths : tests.map Prod.fst = (declared merged).map Prod.fst := by
      have hfst := congrArg (List.map Prod.fst) htests
      rwa [List.map_map, List.map_map] at hfst
    rw [Table.mem_keys_ofTests_iff, hpaths, mem_paths_declared_iff]
  · intro path test htest
    have hcode := Table.code_get?_ofTests tests path
    rw [htest, find?_path_map htests, Option.map_some, eq_comm, Option.map_eq_some_iff] at hcode
    obtain ⟨⟨found, code⟩, hfind, hcompile⟩ := hcode
    have hpath : found = path := by
      simpa using List.find?_some hfind
    exact ⟨code, hpath ▸ hfind, hcompile.symm⟩

/-- A definition whose members collide with each other and with a global member, a definition in a
namespace of its own, and a global object. -/
def telescope : Merged where
  definitions :=
    [{ Definition.ofKind .interface "Lens" with
        members :=
          [.ofKind .constructor none,
            { Member.ofKind .operation (some "zoom") with special := some .static },
            .ofKind .attr (some "zoom"),
            { Member.ofKind .attr (some "label") with special := some .stringifier },
            .ofKind .const (some "MAX"),
            { Member.ofKind .maplike none with readonly := true }]
        attributes := [⟨"Exposed", some .wildcard, []⟩] },
      { Definition.ofKind .interface "Inner" with
        attributes := [⟨"Exposed", some .wildcard, []⟩, ⟨"LegacyNamespace", none, []⟩] },
      { Definition.ofKind .interface "Sky" with
        members := [.ofKind .attr (some "stars")]
        attributes := [⟨"Exposed", some .wildcard, []⟩, ⟨"Global", none, []⟩] }]
  globals := [⟨.ofKind .operation (some "Lens"), WebIdl.globalMixin, ["Lens"]⟩]

/-- The telescope is probed once at each path it declares: the static operation comes before the
attribute of the same name, and the interface before the global member.  The static operation is
looked for on the interface, the attribute and the symbol on its prototype, and the attribute of the
global object on this object. -/
theorem apiTests_telescope :
    ∃ table,
      Gives (apiTests telescope (.ofNames ["Window"]) .empty) [] table [] ∧
      "api.Lens.toString" ∈ table.keys ∧ "api.Lens.@@iterator" ∈ table.keys ∧
      "api.Lens.clear" ∉ table.keys ∧ "api.Lens.MAX" ∉ table.keys ∧ "api.Inner" ∉ table.keys ∧
      (∀ test, table.get? "api.Lens.zoom" = some test →
        test.code = "\"Lens\" in self && \"zoom\" in Lens") ∧
      (∀ test, table.get? "api.Lens.label" = some test →
        test.code = "\"Lens\" in self && \"label\" in Lens.prototype") ∧
      (∀ test, table.get? "api.Lens.@@iterator" = some test →
        test.code = "\"Symbol\" in self && \"iterator\" in Symbol && " ++
          "\"Lens\" in self && Symbol.iterator in Lens.prototype") ∧
      (∀ test, table.get? "api.Lens.Lens" = some test →
        test.code = "bcd.testConstructor(\"Lens\")") ∧
      (∀ test, table.get? "api.Sky.stars" = some test → test.code = "\"stars\" in self") ∧
      ∀ test, table.get? "api.Lens" = some test → test.code = "\"Lens\" in self" := by
  have h : ∃ table, Gives (apiTests telescope (.ofNames ["Window"]) .empty) [] table [] := ⟨_, rfl⟩
  obtain ⟨table, h⟩ := h
  obtain ⟨hpaths, hcodes⟩ := apiTests_of_silent rfl h
  have hdeclared : ∀ path, path ∈ table.keys ↔ path ∈ (declared telescope).map Prod.fst :=
    fun path => (hpaths path).trans mem_paths_declared_iff.symm
  have hcode : ∀ (code : TestCode) {path : String} {test : CompiledTest},
      (declared telescope).find? (fun item => item.1 = path) = some (path, code) →
      table.get? path = some test → test.code = code.compile := by
    intro code path test hfind htest
    obtain ⟨code', hcode', htext⟩ := hcodes path test htest
    rw [hfind] at hcode'
    cases hcode'
    exact htext
  refine ⟨table, h, (hdeclared _).2 (by decide), (hdeclared _).2 (by decide),
    fun hmem => absurd ((hdeclared _).1 hmem) (by decide),
    fun hmem => absurd ((hdeclared _).1 hmem) (by decide),
    fun hmem => absurd ((hdeclared _).1 hmem) (by decide), ?_, ?_, ?_, ?_, ?_, ?_⟩
  · exact fun test htest => (hcode _ rfl htest).trans
      (compile_defaultCode_static (by decide) (by decide) ⟨by decide, by decide⟩ rfl)
  · exact fun test htest => (hcode _ rfl htest).trans
      (compile_defaultCode (by decide) ⟨by decide, by decide⟩ rfl)
  · exact fun test htest => (hcode _ rfl htest).trans
      (@compile_defaultCode_symbol _ _ "iterator" (by decide) (by decide) rfl)
  · exact fun test htest => (hcode _ rfl htest).trans (compile_defaultCode_constructor rfl)
  · exact fun test htest => (hcode _ rfl htest).trans
      (compile_defaultCode (by decide) ⟨by decide, by decide⟩ rfl)
  · exact fun test htest => (hcode (.member (.of "self" "Lens")) rfl htest).trans
      (@code_of_self "Lens" ⟨by decide, by decide⟩)

end Build
end FeatureProbes
