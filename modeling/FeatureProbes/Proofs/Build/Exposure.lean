import FeatureProbes.Proofs.Build.Declared
import FeatureProbes.Proofs.Build.Planned
import FeatureProbes.Proofs.WebIdl.Routing

/-!
# Where declarations are tested

The test of a member runs where its definition is exposed and one of the declarations of the member
is permitted.  What permits a declaration is known from the fragments: its own restriction, else
that of the partial definition in which it stands, else that of the mixin that brings it.

Where names have no dots, no path is that of a definition and of a member, or of members of two
definitions.
-/

namespace FeatureProbes
namespace Build

open Probe (CompiledTest Table)
open Reporting (Gives)
open WebIdl
  (Declaration Definition ExtendedAttribute Fragments GlobalMember Linked Member Mergeable basesOf
    declarationsOf definitionOf? definitionsOf findAttribute flattened globalInclusions globalMixin
    mergedOf mixinDeclarations)

/-! ## Probes of declarations -/

section Probes

variable {definition : Definition} {member : Member} {name : String}

theorem attributes_of_mem_probesOfOperation
    {probe : ProbeMember}
    (h : probe ∈ probesOfOperation definition member) :
    probe.attributes = member.attributes := by
  rw [probesOfOperation, List.mem_append] at h
  rcases h with h | h
  · obtain ⟨name, -, rfl⟩ := List.mem_map.1 h
    rfl
  · split at h
    · obtain ⟨name, -, rfl⟩ := List.mem_map.1 h
      rfl
    · cases h

/-- Every probe of a member has the attributes of the member. -/
theorem attributes_of_mem_probesOfMember
    {probe : ProbeMember}
    (h : probe ∈ probesOfMember definition member) :
    probe.attributes = member.attributes := by
  have hsymbols : ∀ (symbol : String) (names : List String),
      probe ∈ symbolOf member symbol :: propertiesOf member names →
        probe.attributes = member.attributes := by
    intro symbol names hprobe
    rcases List.mem_cons.1 hprobe with rfl | hprobe
    · rfl
    · obtain ⟨name, -, rfl⟩ := List.mem_map.1 hprobe
      rfl
  rw [probesOfMember] at h
  split at h
  · exact attributes_of_mem_probesOfOperation h
  · exact attributes_of_mem_probesOfOperation h
  · split at h
    · cases h
    · rw [List.mem_singleton.1 h]
  · rw [probesOfIterable] at h
    split at h
    · exact hsymbols _ _ h
    · exact hsymbols _ _ h
  · exact hsymbols _ _ h
  · exact hsymbols _ _ h
  · cases h
  · cases h

theorem attributes_of_mem_factoryOf
    {probe : ProbeMember}
    (h : probe ∈ factoryOf definition) :
    probe.attributes = [] := by
  rw [factoryOf] at h
  split at h
  · rw [List.mem_singleton.1 h]
  · cases h

/-- The probes of a name come from members that can be observed under it, with their attributes, or
from the further constructor, without attributes. -/
theorem exists_mem_probesOf_iff
    (P : List ExtendedAttribute → Prop) :
    (∃ probe ∈ probesOf definition, probe.name = name ∧ P probe.attributes) ↔
      (∃ member ∈ definition.members, Observable definition member name ∧ P member.attributes) ∨
        IsFactory definition name ∧ P [] := by
  constructor
  · rintro ⟨probe, hprobe, rfl, hP⟩
    rcases List.mem_append.1 hprobe with hprobe | hprobe
    · obtain ⟨member, hmember, hprobe⟩ := List.mem_flatMap.1 hprobe
      rw [attributes_of_mem_probesOfMember hprobe] at hP
      exact Or.inl ⟨member, hmember,
        mem_names_probesOfMember_iff.1 (List.mem_map_of_mem hprobe), hP⟩
    · rw [attributes_of_mem_factoryOf hprobe] at hP
      exact Or.inr ⟨mem_names_factoryOf_iff.1 (List.mem_map_of_mem hprobe), hP⟩
  · rintro (⟨member, hmember, hname, hP⟩ | ⟨hname, hP⟩)
    · obtain ⟨probe, hprobe, rfl⟩ := List.mem_map.1 (mem_names_probesOfMember_iff.2 hname)
      refine ⟨probe, List.mem_append_left _ (List.mem_flatMap.2 ⟨member, hmember, hprobe⟩), rfl, ?_⟩
      rwa [attributes_of_mem_probesOfMember hprobe]
    · obtain ⟨probe, hprobe, rfl⟩ := List.mem_map.1 (mem_names_factoryOf_iff.2 hname)
      refine ⟨probe, List.mem_append_right _ hprobe, rfl, ?_⟩
      rwa [attributes_of_mem_factoryOf hprobe]

/-- What a member can be observed under does not depend on attributes but the one for markup, and
not on its definition but for the name. -/
theorem Observable.congr
    {definition' : Definition} {attributes : List ExtendedAttribute}
    (h : Observable definition member name)
    (hdefinition : definition.name = definition'.name)
    (hmarkup : findAttribute attributes "HTMLConstructor" =
      findAttribute member.attributes "HTMLConstructor") :
    Observable definition' { member with attributes := attributes } name := by
  cases h with
  | named hkind hname =>
      exact .named hkind hname
  | text hkind hspecial =>
      exact .text hkind hspecial
  | construct hkind hnone =>
      rw [hdefinition]
      refine .construct hkind ?_
      rw [Member.hasAttribute] at hnone ⊢
      rwa [hmarkup]
  | iterable hkind hsync hname =>
      exact .iterable hkind hsync hname
  | asyncIterable hkind hasync hname =>
      exact .asyncIterable hkind hasync hname
  | asyncPairs hkind hasync hpairs hname =>
      exact .asyncPairs hkind hasync hpairs hname
  | maplike hkind hname =>
      exact .maplike hkind hname
  | maplikeMutator hkind hmutable hname =>
      exact .maplikeMutator hkind hmutable hname
  | setlike hkind hname =>
      exact .setlike hkind hname
  | setlikeMutator hkind hmutable hname =>
      exact .setlikeMutator hkind hmutable hname

theorem observable_moved_iff
    {definition' : Definition}
    (declaration : Declaration)
    (hdefinition : definition.name = definition'.name) :
    Observable definition declaration.moved name ↔
      Observable definition' declaration.member name := by
  have hmarkup : findAttribute declaration.moved.attributes "HTMLConstructor" = _ :=
    declaration.findAttribute_moved_of_ne (by decide)
  obtain ⟨attributes, hmoved⟩ := declaration.moved_eq
  rw [hmoved] at hmarkup ⊢
  exact ⟨fun h => h.congr hdefinition hmarkup.symm, fun h => h.congr hdefinition.symm hmarkup⟩

end Probes

/-! ## Scopes of declarations -/

/-- Definitions and members have names without dots. -/
structure DotFree (all : List Definition) : Prop where
  definitions : ∀ definition ∈ all, '.' ∉ definition.name.toList
  members : ∀ definition ∈ all, ∀ member ∈ definition.members, ∀ name,
    member.name = some name → '.' ∉ name.toList

/-- A declaration makes a global member of some name. -/
def DeclaredGlobally
    (all : List Definition)
    (declaration : Declaration)
    (name : String) : Prop :=
  ∃ mixin ∈ basesOf all, mixin.name = globalMixin ∧ mixin.kind = .mixin ∧
    declaration ∈ mixinDeclarations all mixin ∧
    declaration.member.name = some name ∧ declaration.member.kind ≠ .const

/-- A global object that includes the mixin of global members is exposed in a scope. -/
def TargetExposedIn
    (valid : NameSet)
    (all : List Definition)
    (scope : String) : Prop :=
  ∃ inclusion ∈ globalInclusions all, ∃ target ∈ basesOf all,
    target.name = inclusion.name ∧ target.ExposedIn valid scope

section Paths

variable {first second rest rest' : String}

theorem apiPath_inj :
    "api." ++ first = "api." ++ second ↔ first = second := by
  have h : "api" ++ "." ++ first = "api" ++ "." ++ second ↔ _ :=
    Text.append_dot_inj (by decide) (by decide)
  exact h.trans (and_iff_right rfl)

theorem memberPath_inj
    (h : '.' ∉ first.toList)
    (h' : '.' ∉ second.toList) :
    "api." ++ first ++ "." ++ rest = "api." ++ second ++ "." ++ rest' ↔
      first = second ∧ rest = rest' := by
  rw [String.append_assoc, String.append_assoc, String.append_assoc, String.append_assoc,
    apiPath_inj, ← String.append_assoc, ← String.append_assoc, Text.append_dot_inj h h']

theorem apiPath_ne_memberPath
    (h : '.' ∉ first.toList) :
    "api." ++ first ≠ "api." ++ second ++ "." ++ rest := by
  rw [String.append_assoc, String.append_assoc, ne_eq, apiPath_inj]
  rintro rfl
  simp at h

end Paths

section Merged

variable
  {all : List Definition} {catalog : Catalog} {valid : NameSet} {base : Definition}
  {name scope : String}

theorem mem_mergedOf_iff
    {definition : Definition} :
    definition ∈ (mergedOf all).definitions ∧ isTested definition ↔
      ∃ base ∈ basesOf all, isTested base ∧ flattened all base = definition := by
  constructor
  · rintro ⟨hmem, htested⟩
    obtain ⟨base, hbase, rfl⟩ := List.mem_map.1 hmem
    exact ⟨base, List.mem_of_mem_filter hbase, htested, rfl⟩
  · rintro ⟨base, hbase, htested, rfl⟩
    refine ⟨List.mem_map.2 ⟨base, List.mem_filter.2 ⟨hbase, ?_⟩, rfl⟩, htested⟩
    rcases (isTested_iff.1 htested).1 with hkind | hkind
    · simp [hkind]
    · simp [hkind]

/-- The probes of a merged definition come from the declarations of its members, with what these are
restricted to. -/
theorem exists_mem_probesOf_flattened_iff
    (P : Option ExtendedAttribute → Prop) :
    (∃ probe ∈ probesOf (flattened all base),
        probe.name = name ∧ P (findAttribute probe.attributes "Exposed")) ↔
      (∃ declaration ∈ declarationsOf all base,
        Observable base declaration.member name ∧ P declaration.restriction?) ∨
        IsFactory base name ∧ P none := by
  have hname : (flattened all base).name = base.name := rfl
  have hprobes : (∃ probe ∈ probesOf (flattened all base),
      probe.name = name ∧ P (findAttribute probe.attributes "Exposed")) ↔ _ :=
    exists_mem_probesOf_iff fun attributes => P (findAttribute attributes "Exposed")
  refine hprobes.trans (or_congr ?_ Iff.rfl)
  rw [← WebIdl.map_moved_declarationsOf]
  constructor
  · rintro ⟨member, hmember, hobservable, hP⟩
    obtain ⟨declaration, hdeclaration, rfl⟩ := List.mem_map.1 hmember
    rw [observable_moved_iff declaration hname] at hobservable
    rw [declaration.findAttribute_moved] at hP
    exact ⟨declaration, hdeclaration, hobservable, hP⟩
  · rintro ⟨declaration, hdeclaration, hobservable, hP⟩
    rw [← observable_moved_iff declaration hname] at hobservable
    rw [← declaration.findAttribute_moved] at hP
    exact ⟨declaration.moved, List.mem_map_of_mem hdeclaration, hobservable, hP⟩

/-- A name of a merged definition is probed if one of its declarations can be observed under it. -/
theorem exists_probe_iff_declaration :
    (∃ probe ∈ probesOf (flattened all base), probe.name = name) ↔
      (∃ declaration ∈ declarationsOf all base, Observable base declaration.member name) ∨
        IsFactory base name := by
  simpa using exists_mem_probesOf_flattened_iff fun _ => True

theorem exists_permitted_probe_iff :
    (∃ probe ∈ probesOf (flattened all base),
        probe.name = name ∧ PermittedIn valid probe.attributes scope) ↔
      (∃ declaration ∈ declarationsOf all base,
        Observable base declaration.member name ∧ declaration.Permits valid scope) ∨
        IsFactory base name := by
  have hprobes : (∃ probe ∈ probesOf (flattened all base),
      probe.name = name ∧ PermittedIn valid probe.attributes scope) ↔ _ :=
    exists_mem_probesOf_flattened_iff fun found =>
      ∀ item, found = some item → item.Names valid scope
  refine hprobes.trans (or_congr Iff.rfl (and_iff_left ?_))
  rintro item ⟨⟩

/-! ## Global members -/

/-- Global members are the declarations of the mixin, moved, if some global object includes it. -/
theorem mem_globals_iff
    {item : GlobalMember}
    (h : Linked all) :
    item ∈ (mergedOf all).globals ↔
      globalInclusions all ≠ [] ∧ ∃ mixin ∈ basesOf all, mixin.name = globalMixin ∧
        mixin.kind = .mixin ∧ ∃ declaration ∈ mixinDeclarations all mixin,
          item = ⟨declaration.moved, globalMixin,
            ((globalInclusions all).map Definition.name).eraseDups⟩ := by
  by_cases hnone : globalInclusions all = []
  · simp [WebIdl.globals_eq_nil h hnone, hnone]
  · obtain ⟨mixin, hmixin⟩ := WebIdl.exists_globalMixin h hnone
    have hmoved : WebIdl.broughtBy all mixin =
        (mixinDeclarations all mixin).map Declaration.moved :=
      (WebIdl.map_moved_mixinDeclarations mixin).symm
    rw [WebIdl.globals_eq_map h hnone hmixin, hmoved, List.map_map, List.mem_map]
    have hthis := (WebIdl.definitionOf?_eq_some_iff h.distinct).1 hmixin
    constructor
    · rintro ⟨declaration, hdeclaration, rfl⟩
      exact ⟨hnone, mixin, hthis.1, hthis.2.1, hthis.2.2, declaration, hdeclaration, rfl⟩
    · rintro ⟨-, other, hother, hname, -, declaration, hdeclaration, rfl⟩
      have hsame : other = mixin :=
        List.inj_on_of_nodup_map h.distinct hother hthis.1 (hname.trans hthis.2.1.symm)
      exact ⟨declaration, hsame ▸ hdeclaration, rfl⟩

/-- An inclusion that makes global members has an interface for a target. -/
theorem exists_target_of_globalInclusion
    {inclusion : Definition}
    (hinclusion : inclusion ∈ globalInclusions all) :
    ∃ target ∈ basesOf all, target.name = inclusion.name ∧ target.kind = .interface := by
  have hglobal := List.of_mem_filter hinclusion
  rw [WebIdl.isGlobalInclusion, Bool.and_eq_true, List.any_eq_true] at hglobal
  obtain ⟨-, target, htarget, hfits⟩ := hglobal
  simp only [Bool.and_eq_true, beq_iff_eq] at hfits
  exact ⟨target, htarget, hfits.2.1, hfits.1⟩

/-- The targets of global members are exposed where a global object is that includes the mixin. -/
theorem exists_target_iff
    (h : Linked all) :
    (∃ target ∈ ((globalInclusions all).map Definition.name).eraseDups, ∃ definition,
        (mergedOf all).find? target = some definition ∧ definition.ExposedIn valid scope) ↔
      TargetExposedIn valid all scope := by
  have hdistinct := WebIdl.nodup_names_mergedOf h
  constructor
  · rintro ⟨target, htarget, definition, hfind, hexposed⟩
    obtain ⟨inclusion, hinclusion, rfl⟩ := List.mem_map.1 (List.mem_eraseDups.1 htarget)
    obtain ⟨hmem, hname⟩ := (WebIdl.findDefinition_eq_some_iff hdistinct).1 hfind
    obtain ⟨base, hbase, rfl⟩ := List.mem_map.1 hmem
    exact ⟨inclusion, hinclusion, base, List.mem_of_mem_filter hbase, hname, hexposed⟩
  · rintro ⟨inclusion, hinclusion, target, htarget, hname, hexposed⟩
    have hinterface : target.kind = .interface := by
      obtain ⟨other, hother, hsame, hkind⟩ := exists_target_of_globalInclusion hinclusion
      rwa [← List.inj_on_of_nodup_map h.distinct hother htarget (hsame.trans hname.symm)]
    refine ⟨inclusion.name, List.mem_eraseDups.2 (List.mem_map_of_mem hinclusion),
      flattened all target, (WebIdl.findDefinition_eq_some_iff hdistinct).2 ⟨?_, hname⟩, hexposed⟩
    exact List.mem_map_of_mem (List.mem_filter.2 ⟨htarget, by simp [hinterface]⟩)

/-! ## Plans for paths without dots in names -/

theorem DotFree.baseName
    (hnames : DotFree all)
    (hbase : base ∈ basesOf all) :
    '.' ∉ base.name.toList :=
  hnames.definitions base (List.mem_of_mem_filter hbase)

theorem DotFree.declaredGlobally
    {declaration : Declaration}
    (hnames : DotFree all)
    (h : DeclaredGlobally all declaration name) :
    '.' ∉ name.toList := by
  obtain ⟨mixin, hmixin, -, -, hdeclaration, hname, -⟩ := h
  obtain ⟨own, hown, rfl⟩ := List.mem_map.1 hdeclaration
  rcases List.mem_append.1 hown with hown | hown
  · obtain ⟨member, hmember, rfl⟩ := List.mem_map.1 hown
    exact hnames.members mixin (List.mem_of_mem_filter hmixin) member hmember name hname
  · obtain ⟨part, hpart, hown⟩ := List.mem_flatMap.1 hown
    obtain ⟨member, hmember, rfl⟩ := List.mem_map.1 hown
    exact hnames.members part (List.mem_of_mem_filter hpart) member hmember name hname

/-- A global member has the name and kind of its declaration. -/
theorem declaredGlobally_of_mem_globals
    {item : GlobalMember}
    (h : Linked all)
    (hitem : item ∈ (mergedOf all).globals)
    (hname : item.member.name = some name)
    (hkind : item.member.kind ≠ .const) :
    globalInclusions all ≠ [] ∧ ∃ declaration, DeclaredGlobally all declaration name ∧
      item = ⟨declaration.moved, globalMixin,
        ((globalInclusions all).map Definition.name).eraseDups⟩ := by
  obtain ⟨hsome, mixin, hmixin, hmixinName, hmixinKind, declaration, hdeclaration, rfl⟩ :=
    (mem_globals_iff h).1 hitem
  obtain ⟨attributes, hmoved⟩ := declaration.moved_eq
  dsimp only at hname hkind
  rw [hmoved] at hname hkind
  exact ⟨hsome, declaration, ⟨mixin, hmixin, hmixinName, hmixinKind, hdeclaration, hname, hkind⟩,
    rfl⟩

theorem exists_global_of_declared
    {declaration : Declaration}
    (h : Linked all)
    (hsome : globalInclusions all ≠ [])
    (hdeclared : DeclaredGlobally all declaration name) :
    ∃ item ∈ (mergedOf all).globals, item.member.name = some name ∧ item.member.kind ≠ .const ∧
      item = ⟨declaration.moved, globalMixin,
        ((globalInclusions all).map Definition.name).eraseDups⟩ := by
  obtain ⟨mixin, hmixin, hmixinName, hmixinKind, hdeclaration, hname, hkind⟩ := hdeclared
  obtain ⟨attributes, hmoved⟩ := declaration.moved_eq
  refine ⟨_, (mem_globals_iff h).2
    ⟨hsome, mixin, hmixin, hmixinName, hmixinKind, declaration, hdeclaration, rfl⟩, ?_, ?_, rfl⟩
  · rw [hmoved]
    exact hname
  · rw [hmoved]
    exact hkind

/-- The tests that are planned below a definition are those of its members and of authors. -/
theorem planned_memberPath_iff
    {below : String} {scopes : String → Prop}
    (h : Linked all)
    (hnames : DotFree all)
    (hname : '.' ∉ name.toList) :
    Planned (mergedOf all) valid catalog ("api." ++ name ++ "." ++ below) scopes ↔
      ∃ base ∈ basesOf all, isTested base ∧ base.name = name ∧
        ((∃ probe ∈ probesOf (flattened all base), probe.name = below ∧
            scopes = fun scope =>
              base.ExposedIn valid scope ∧ PermittedIn valid probe.attributes scope) ∨
          Authored catalog (flattened all base) below ∧ scopes = base.ExposedIn valid) := by
  constructor
  · generalize hpath : "api." ++ name ++ "." ++ below = path
    intro hplan
    cases hplan with
    | definition hmem htested =>
        obtain ⟨base, hbase, htested, rfl⟩ := mem_mergedOf_iff.1 ⟨hmem, htested⟩
        have hdots := hnames.baseName hbase
        exact absurd hpath.symm (apiPath_ne_memberPath hdots)
    | @probe _ probe hmem htested hprobe =>
        obtain ⟨base, hbase, htested, rfl⟩ := mem_mergedOf_iff.1 ⟨hmem, htested⟩
        obtain ⟨rfl, rfl⟩ := (memberPath_inj hname (hnames.baseName hbase)).1 hpath
        exact ⟨base, hbase, htested, rfl, Or.inl ⟨probe, hprobe, rfl, rfl⟩⟩
    | authored hmem htested hauthored =>
        obtain ⟨base, hbase, htested, rfl⟩ := mem_mergedOf_iff.1 ⟨hmem, htested⟩
        obtain ⟨rfl, rfl⟩ := (memberPath_inj hname (hnames.baseName hbase)).1 hpath
        exact ⟨base, hbase, htested, rfl, Or.inr ⟨hauthored, rfl⟩⟩
    | globalMember hitem hmember hkind =>
        obtain ⟨-, declaration, hdeclared, -⟩ :=
          declaredGlobally_of_mem_globals h hitem hmember hkind
        exact absurd hpath.symm (apiPath_ne_memberPath (hnames.declaredGlobally hdeclared))
  · rintro ⟨base, hbase, htested, rfl, ⟨probe, hprobe, rfl, rfl⟩ | ⟨hauthored, rfl⟩⟩
    · obtain ⟨hmem, htested⟩ := mem_mergedOf_iff.2 ⟨base, hbase, htested, rfl⟩
      have hplan : Planned (mergedOf all) valid catalog
          ("api." ++ (flattened all base).name ++ "." ++ probe.name) _ :=
        .probe hmem htested hprobe
      exact hplan
    · obtain ⟨hmem, htested⟩ := mem_mergedOf_iff.2 ⟨base, hbase, htested, rfl⟩
      have hplan : Planned (mergedOf all) valid catalog
          ("api." ++ (flattened all base).name ++ "." ++ below) _ :=
        .authored hmem htested hauthored
      exact hplan

/-- The tests that are planned for a name without a dot are those of a definition and of global
members. -/
theorem planned_apiPath_iff
    {scopes : String → Prop}
    (hname : '.' ∉ name.toList) :
    Planned (mergedOf all) valid catalog ("api." ++ name) scopes ↔
      (∃ base ∈ basesOf all, isTested base ∧ base.name = name ∧ scopes = base.ExposedIn valid) ∨
        ∃ item ∈ (mergedOf all).globals, item.member.name = some name ∧
          item.member.kind ≠ .const ∧
          scopes = fun scope =>
            (∃ target ∈ item.targets, ∃ definition,
              (mergedOf all).find? target = some definition ∧ definition.ExposedIn valid scope) ∧
            PermittedIn valid item.member.attributes scope := by
  constructor
  · generalize hpath : "api." ++ name = path
    intro hplan
    cases hplan with
    | definition hmem htested =>
        obtain ⟨base, hbase, htested, rfl⟩ := mem_mergedOf_iff.1 ⟨hmem, htested⟩
        exact Or.inl ⟨base, hbase, htested, (apiPath_inj.1 hpath).symm, rfl⟩
    | probe hmem htested hprobe =>
        exact absurd hpath (apiPath_ne_memberPath hname)
    | authored hmem htested hauthored =>
        exact absurd hpath (apiPath_ne_memberPath hname)
    | globalMember hitem hmember hkind =>
        rw [← apiPath_inj.1 hpath] at hmember
        exact Or.inr ⟨_, hitem, hmember, hkind, rfl⟩
  · rintro (⟨base, hbase, htested, rfl, rfl⟩ | ⟨item, hitem, hmember, hkind, rfl⟩)
    · obtain ⟨hmem, htested⟩ := mem_mergedOf_iff.2 ⟨base, hbase, htested, rfl⟩
      have hplan : Planned (mergedOf all) valid catalog ("api." ++ (flattened all base).name) _ :=
        .definition hmem htested
      exact hplan
    · exact .globalMember hitem hmember hkind

/-- A member path that no author names is planned for the scopes of its definition in which one of
its declarations is permitted. -/
theorem exists_planned_memberPath_iff
    (h : Linked all)
    (hnames : DotFree all)
    (hbase : base ∈ basesOf all)
    (htested : isTested base)
    (hauthored : ¬Authored catalog (flattened all base) name) :
    (∃ scopes, Planned (mergedOf all) valid catalog ("api." ++ base.name ++ "." ++ name) scopes ∧
        scopes scope) ↔
      base.ExposedIn valid scope ∧
        ((∃ declaration ∈ declarationsOf all base,
            Observable base declaration.member name ∧ declaration.Permits valid scope) ∨
          IsFactory base name) := by
  rw [← exists_permitted_probe_iff]
  simp only [planned_memberPath_iff h hnames (hnames.baseName hbase)]
  constructor
  · rintro ⟨scopes, ⟨other, hother, -, hname, hplan⟩, hscope⟩
    obtain rfl : other = base := List.inj_on_of_nodup_map h.distinct hother hbase hname
    rcases hplan with ⟨probe, hprobe, hprobeName, rfl⟩ | ⟨hwritten, -⟩
    · exact ⟨hscope.1, probe, hprobe, hprobeName, hscope.2⟩
    · exact absurd hwritten hauthored
  · rintro ⟨hexposed, probe, hprobe, hprobeName, hpermitted⟩
    exact ⟨_, ⟨base, hbase, htested, rfl, Or.inl ⟨probe, hprobe, hprobeName, rfl⟩⟩, hexposed,
      hpermitted⟩

/-- A global member is planned for the scopes of the global objects in which its declaration is
permitted. -/
theorem exists_planned_globalMember_iff
    (h : Linked all) :
    (∃ item ∈ (mergedOf all).globals, item.member.name = some name ∧ item.member.kind ≠ .const ∧
        (∃ target ∈ item.targets, ∃ definition,
          (mergedOf all).find? target = some definition ∧ definition.ExposedIn valid scope) ∧
        PermittedIn valid item.member.attributes scope) ↔
      TargetExposedIn valid all scope ∧
        ∃ declaration, DeclaredGlobally all declaration name ∧ declaration.Permits valid scope := by
  constructor
  · rintro ⟨item, hitem, hname, hkind, htargets, hpermitted⟩
    obtain ⟨-, declaration, hdeclared, rfl⟩ := declaredGlobally_of_mem_globals h hitem hname hkind
    rw [PermittedIn, declaration.findAttribute_moved] at hpermitted
    exact ⟨(exists_target_iff h).1 htargets, declaration, hdeclared, hpermitted⟩
  · rintro ⟨hexposed, declaration, hdeclared, hpermitted⟩
    obtain ⟨inclusion, hinclusion, -⟩ := id hexposed
    obtain ⟨item, hitem, hname, hkind, rfl⟩ :=
      exists_global_of_declared h (List.ne_nil_of_mem hinclusion) hdeclared
    refine ⟨_, hitem, hname, hkind, (exists_target_iff h).2 hexposed, ?_⟩
    rw [PermittedIn, declaration.findAttribute_moved]
    exact hpermitted

/-- A path of a single name is planned for the scopes of a definition of this name, and for those of
a global member. -/
theorem exists_planned_apiPath_iff
    (h : Linked all)
    (hname : '.' ∉ name.toList) :
    (∃ scopes, Planned (mergedOf all) valid catalog ("api." ++ name) scopes ∧ scopes scope) ↔
      (∃ base ∈ basesOf all, isTested base ∧ base.name = name ∧ base.ExposedIn valid scope) ∨
        TargetExposedIn valid all scope ∧
          ∃ declaration, DeclaredGlobally all declaration name ∧
            declaration.Permits valid scope := by
  rw [← exists_planned_globalMember_iff h]
  simp only [planned_apiPath_iff hname]
  constructor
  · rintro ⟨scopes, ⟨base, hbase, htested, hbaseName, rfl⟩ |
      ⟨item, hitem, hmember, hkind, rfl⟩, hscope⟩
    · exact Or.inl ⟨base, hbase, htested, hbaseName, hscope⟩
    · exact Or.inr ⟨item, hitem, hmember, hkind, hscope⟩
  · rintro (⟨base, hbase, htested, hbaseName, hscope⟩ | ⟨item, hitem, hmember, hkind, hscope⟩)
    · exact ⟨_, Or.inl ⟨base, hbase, htested, hbaseName, rfl⟩, hscope⟩
    · exact ⟨_, Or.inr ⟨item, hitem, hmember, hkind, rfl⟩, hscope⟩

/-- What is planned below a definition comes with a test of the definition itself, which is run
wherever the tests below are. -/
theorem exists_planned_owner
    {below : String} {scopes : String → Prop}
    (h : Linked all)
    (hnames : DotFree all)
    (hname : '.' ∉ name.toList)
    (hplan : Planned (mergedOf all) valid catalog ("api." ++ name ++ "." ++ below) scopes) :
    ∃ base ∈ basesOf all, base.name = name ∧
      Planned (mergedOf all) valid catalog ("api." ++ name) (base.ExposedIn valid) ∧
      ∀ scope, scopes scope → base.ExposedIn valid scope := by
  obtain ⟨base, hbase, htested, hbaseName, hplan⟩ :=
    (planned_memberPath_iff h hnames hname).1 hplan
  refine ⟨base, hbase, hbaseName,
    (planned_apiPath_iff hname).2 (Or.inl ⟨base, hbase, htested, hbaseName, rfl⟩), ?_⟩
  intro scope hscope
  rcases hplan with ⟨probe, -, -, rfl⟩ | ⟨-, rfl⟩
  · exact hscope.1
  · exact hscope

end Merged

/-- Where a catalog and fragments with names without dots give a table, its tests are run as
follows.  Scopes are valid, and they are listed in order.  A member path that no author names is run
where its definition is exposed and one of the declarations of the member is permitted; the further
constructor always is.  A path of a single name is run where a definition of this name is exposed,
and where one of the global objects is exposed and a declaration of a global member is permitted.
And what is tested below a definition is tested at most where the definition is. -/
theorem apiTable_exposure
    {spec custom : Fragments} {valid : NameSet} {catalog : Catalog} {before after : Diagnostics}
    {table : Table}
    (hnames : DotFree (definitionsOf spec custom))
    (h : Gives (apiTable spec custom valid catalog) before table after) :
    let all := definitionsOf spec custom
    (∀ path test, table.get? path = some test →
        test.exposure.Pairwise (· < ·) ∧ ∀ scope ∈ test.exposure, scope ∈ valid.keys) ∧
      (∀ base ∈ basesOf all, isTested base → ∀ name,
        (∃ declaration ∈ declarationsOf all base, Observable base declaration.member name) ∨
            IsFactory base name →
          ¬Authored catalog (flattened all base) name →
          ∃ test, table.get? ("api." ++ base.name ++ "." ++ name) = some test ∧
            ∀ scope, scope ∈ test.exposure ↔
              base.ExposedIn valid scope ∧
                ((∃ declaration ∈ declarationsOf all base,
                    Observable base declaration.member name ∧ declaration.Permits valid scope) ∨
                  IsFactory base name)) ∧
      (∀ name,
        (∃ base ∈ basesOf all, isTested base ∧ base.name = name) ∨
            (globalInclusions all ≠ [] ∧ ∃ declaration, DeclaredGlobally all declaration name) →
          ∃ test, table.get? ("api." ++ name) = some test ∧
            ∀ scope, scope ∈ test.exposure ↔
              (∃ base ∈ basesOf all, isTested base ∧ base.name = name ∧
                  base.ExposedIn valid scope) ∨
                TargetExposedIn valid all scope ∧
                  ∃ declaration, DeclaredGlobally all declaration name ∧
                    declaration.Permits valid scope) ∧
      ∀ name below test, '.' ∉ name.toList →
        table.get? ("api." ++ name ++ "." ++ below) = some test →
        ∃ own, table.get? ("api." ++ name) = some own ∧
          ∀ scope ∈ test.exposure, scope ∈ own.exposure := by
  intro all
  obtain ⟨merged, first, hmerged, h⟩ := Reporting.gives_bind_iff.1 h
  obtain ⟨_, second, -, h⟩ := Reporting.gives_bind_iff.1 h
  obtain ⟨hmerged, -⟩ := Reporting.gives_ofExcept_iff.1 hmerged
  obtain ⟨hmergeable, rfl⟩ : Mergeable all ∧ merged = mergedOf all :=
    WebIdl.mergeDefinitions_eq_ok_iff.1 hmerged
  have hlinked := hmergeable.toLinked
  obtain ⟨tests, rfl, hrealizes⟩ := apiTests_realize h
  refine ⟨fun path test => hrealizes.exposure_ascending, ?_, ?_, ?_⟩
  · intro base hbase htested name hdeclared hauthored
    obtain ⟨probe, hprobe, hname⟩ := exists_probe_iff_declaration.2 hdeclared
    have hplan : Planned (mergedOf all) valid catalog ("api." ++ base.name ++ "." ++ name) _ :=
      (planned_memberPath_iff hlinked hnames (hnames.baseName hbase)).2
        ⟨base, hbase, htested, rfl, Or.inl ⟨probe, hprobe, hname, rfl⟩⟩
    obtain ⟨test, htest⟩ := hrealizes.exists_get? hplan
    refine ⟨test, htest, ?_⟩
    intro scope
    rw [hrealizes.mem_exposure_iff htest]
    exact exists_planned_memberPath_iff hlinked hnames hbase htested hauthored
  · intro name hdeclared
    have hname : '.' ∉ name.toList := by
      rcases hdeclared with ⟨base, hbase, -, rfl⟩ | ⟨-, declaration, hdeclared⟩
      · exact hnames.baseName hbase
      · exact hnames.declaredGlobally hdeclared
    obtain ⟨scopes, hplan⟩ : ∃ scopes,
        Planned (mergedOf all) valid catalog ("api." ++ name) scopes := by
      simp only [planned_apiPath_iff hname]
      rcases hdeclared with ⟨base, hbase, htested, hbaseName⟩ | ⟨hsome, declaration, hdeclared⟩
      · exact ⟨_, Or.inl ⟨base, hbase, htested, hbaseName, rfl⟩⟩
      · obtain ⟨item, hitem, hmember, hkind, -⟩ := exists_global_of_declared hlinked hsome hdeclared
        exact ⟨_, Or.inr ⟨item, hitem, hmember, hkind, rfl⟩⟩
    obtain ⟨test, htest⟩ := hrealizes.exists_get? hplan
    refine ⟨test, htest, ?_⟩
    intro scope
    rw [hrealizes.mem_exposure_iff htest]
    exact exists_planned_apiPath_iff hlinked hname
  · intro name below test hname htest
    obtain ⟨scopes, hplan⟩ := hrealizes.exists_plan htest
    obtain ⟨_, -, -, hown, -⟩ := exists_planned_owner hlinked hnames hname hplan
    obtain ⟨own, hget⟩ := hrealizes.exists_get? hown
    refine ⟨own, hget, ?_⟩
    intro scope hscope
    obtain ⟨scopes', hplan', hscope'⟩ := (hrealizes.mem_exposure_iff htest scope).1 hscope
    obtain ⟨_, -, -, hown', hall⟩ := exists_planned_owner hlinked hnames hname hplan'
    exact (hrealizes.mem_exposure_iff hget scope).2 ⟨_, hown', hall scope hscope'⟩

/-- An interface that is exposed in two scopes. -/
def dome : Definition :=
  { Definition.ofKind .interface "Dome" with
    members := [.ofKind .attr "slit"]
    attributes := [⟨"Exposed", some (.identifierList ["Window", "DedicatedWorker"]), []⟩] }

/-- A partial definition of the interface that is exposed in one of them. -/
def shutter : Definition :=
  { Definition.ofKind .interface "Dome" with
    isPartial := true
    members := [.ofKind .attr "open"]
    attributes := [⟨"Exposed", some (.identifier "Window"), []⟩] }

/-- A mixin that is exposed in the other one. -/
def motor : Definition :=
  { Definition.ofKind .mixin "Motor" with
    members := [.ofKind .operation "turn"]
    attributes := [⟨"Exposed", some (.identifier "DedicatedWorker"), []⟩] }

/-- An interface that describes a global object. -/
def sky : Definition :=
  { Definition.ofKind .interface "Window" with
    attributes := [⟨"Exposed", some (.identifier "Window"), []⟩] }

/-- The mixin of a global member. -/
def starlight : Definition :=
  { Definition.ofKind .mixin globalMixin with members := [.ofKind .operation "look"] }

/-- The inclusion that makes the member global. -/
def horizon : Definition :=
  { Definition.ofKind .includes "Window" with included := some globalMixin }

/-- The interface gets its partial definition and its mixin, and the global object its member. -/
def observatory : Fragments :=
  .ofList
    [("base",
        [dome, shutter, motor, { Definition.ofKind .includes "Dome" with included := some "Motor" },
          sky, starlight, horizon])]

/-- In the observatory the member of the partial definition is tested in one scope of its interface,
that of the mixin in the other one, and the global member where the global object is exposed. -/
theorem apiTable_observatory :
    ∃ table,
      Gives (apiTable observatory .empty (.ofNames ["Window", "Worker"]) .empty) [] table [] ∧
      (∃ test, table.get? "api.Dome.open" = some test ∧ test.exposure.Pairwise (· < ·) ∧
        ∀ scope, scope ∈ test.exposure ↔ scope = "Window") ∧
      (∃ test, table.get? "api.Dome.turn" = some test ∧
        ∀ scope, scope ∈ test.exposure ↔ scope = "Worker") ∧
      ∃ test, table.get? "api.look" = some test ∧ "Window" ∈ test.exposure := by
  have h : ∃ table,
      Gives (apiTable observatory .empty (.ofNames ["Window", "Worker"]) .empty) [] table [] :=
    ⟨_, rfl⟩
  obtain ⟨table, h⟩ := h
  have hdots : ∀ definition ∈ definitionsOf observatory .empty,
      '.' ∉ definition.name.toList ∧
        ∀ member ∈ definition.members, '.' ∉ (member.name.getD "").toList := by
    decide
  have hnames : DotFree (definitionsOf observatory .empty) := by
    refine ⟨fun definition hmem => (hdots definition hmem).1, ?_⟩
    intro definition hmem member hmember name hname
    have hmemberDots := (hdots definition hmem).2 member hmember
    rwa [hname] at hmemberDots
  have hsilent : ∀ definition name, ¬Authored .empty definition name := by
    rintro definition name ⟨node, hnode, -⟩
    rw [node?_interfacePath_eq_none rfl] at hnode
    cases hnode
  have hbases : basesOf (definitionsOf observatory .empty) = [dome, motor, sky, starlight] := rfl
  have hdeclarations : declarationsOf (definitionsOf observatory .empty) dome =
      [⟨.ofKind .attr "slit", []⟩, ⟨.ofKind .attr "open", [shutter]⟩,
        ⟨.ofKind .operation "turn", [motor]⟩] :=
    rfl
  have hobservable : ∀ (kind : WebIdl.MemberKind) (own name : String),
      kind = .attr ∨ kind = .operation →
      (Observable dome (.ofKind kind own) name ↔ own = name) := by
    intro kind own name hkind
    rw [← mem_names_probesOfOperation_iff_observable hkind, mem_names_probesOfOperation_iff]
    simp [Member.ofKind]
  have hfactory : ∀ name, ¬IsFactory dome name := by
    rintro name ⟨found, hfound, -⟩
    cases hfound
  have hexposed : ∀ scope, dome.ExposedIn (.ofNames ["Window", "Worker"]) scope ↔
      scope = "Window" ∨ scope = "Worker" := by
    simp [Definition.ExposedIn, Definition.attribute?, findAttribute, dome,
      ExtendedAttribute.names_iff, WebIdl.scopeOfName, eq_comm]
  have hopen : ∀ scope, Declaration.Permits (.ofNames ["Window", "Worker"])
      ⟨.ofKind .attr "open", [shutter]⟩ scope ↔ scope = "Window" := by
    simp [Declaration.Permits, Declaration.restriction?, Definition.attribute?, findAttribute,
      shutter, Member.ofKind, ExtendedAttribute.names_iff, WebIdl.scopeOfName, eq_comm]
  have hturn : ∀ scope, Declaration.Permits (.ofNames ["Window", "Worker"])
      ⟨.ofKind .operation "turn", [motor]⟩ scope ↔ scope = "Worker" := by
    simp [Declaration.Permits, Declaration.restriction?, Definition.attribute?, findAttribute,
      motor, Member.ofKind, ExtendedAttribute.names_iff, WebIdl.scopeOfName, eq_comm]
  obtain ⟨hordered, hmembers, hglobals, -⟩ := apiTable_exposure hnames h
  refine ⟨table, h, ?_, ?_, ?_⟩
  · obtain ⟨test, htest, hscopes⟩ := hmembers dome (by simp [hbases]) (by decide) "open"
      (Or.inl (by simp [hdeclarations, hobservable])) (hsilent _ _)
    refine ⟨test, htest, (hordered _ _ htest).1, ?_⟩
    intro scope
    rw [hscopes, hdeclarations, hexposed]
    simp +contextual [hobservable, hfactory, hopen]
  · obtain ⟨test, htest, hscopes⟩ := hmembers dome (by simp [hbases]) (by decide) "turn"
      (Or.inl (by simp [hdeclarations, hobservable])) (hsilent _ _)
    refine ⟨test, htest, ?_⟩
    intro scope
    rw [hscopes, hdeclarations, hexposed]
    simp +contextual [hobservable, hfactory, hturn]
  · have hdeclared : DeclaredGlobally (definitionsOf observatory .empty)
        ⟨.ofKind .operation "look", [starlight]⟩ "look" := by
      have hmixin : mixinDeclarations (definitionsOf observatory .empty) starlight =
          [⟨.ofKind .operation "look", [starlight]⟩] :=
        rfl
      exact ⟨starlight, by simp [hbases], rfl, rfl, by simp [hmixin], rfl, by decide⟩
    have hinclusions : globalInclusions (definitionsOf observatory .empty) = [horizon] := rfl
    obtain ⟨test, htest, hscopes⟩ := hglobals "look" (Or.inr ⟨by simp [hinclusions], _, hdeclared⟩)
    refine ⟨test, htest, (hscopes "Window").2 (Or.inr ⟨?_, _, hdeclared, ?_⟩)⟩
    · exact ⟨horizon, by simp [hinclusions], sky, by simp [hbases], rfl, _, rfl,
        ExtendedAttribute.names_iff.2 (Or.inr (Or.inl ⟨"Window", rfl, rfl⟩))⟩
    · rintro item ⟨⟩

end Build
end FeatureProbes
