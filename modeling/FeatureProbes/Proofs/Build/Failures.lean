import FeatureProbes.Proofs.Build.Entries
import FeatureProbes.Proofs.Build.Steps

/-!
# Failures of builds

A definition that does not say where it is exposed is found when definitions are checked, and never
later: tests are made of interfaces and namespaces only, all of which are checked; the targets of
global members are interfaces among them; and the restriction of a member is looked up only if it is
there.  What can fail after the check is the value of such an attribute, and the catalog.
-/

namespace FeatureProbes
namespace Build

open Catalog (HoldsOfAnswers IsRefusal)
open Probe (CompiledTest Table)
open Reporting (FailsFor Fails Gives Yields)
open WebIdl
  (Definition ExtendedAttribute Fragments GlobalMember Linked Mergeable Merged basesOf definitionsOf
    findAttribute globalInclusions mergedOf)

/-! ## Errors of merging and of checking -/

/-- The errors of merging definitions. -/
inductive IsMergeError : BuildError → Prop where
  | duplicateDefinition (name : String) :
      IsMergeError (.duplicateDefinition name)
  | partialWithoutBase (kind : WebIdl.DefinitionKind) (name : String) :
      IsMergeError (.partialWithoutBase kind name)
  | duplicateMember (owner member : String) :
      IsMergeError (.duplicateMember owner member)
  | mixinTargetNotFound (target mixin : String) :
      IsMergeError (.mixinTargetNotFound target mixin)
  | mixinNotFound (mixin target : String) :
      IsMergeError (.mixinNotFound mixin target)

/-- The errors that can come up once definitions have been merged and checked. -/
inductive IsLate : BuildError → Prop where
  | value (found : Option WebIdl.AttributeValue) :
      IsLate (.unexpectedExposedValue found)
  | scope (kind name scope : String) :
      IsLate (.invalidScope kind name scope)
  | resource (name path : String) :
      IsLate (.undefinedResource name path)
  | cycle (path : String) (chain : List String) :
      IsLate (.cyclicImport path chain)

section Merging

theorem isMergeError_of_basesFrom
    {seen definitions : List Definition} {error : BuildError}
    (h : WebIdl.basesFrom seen definitions = .error error) :
    IsMergeError error := by
  induction definitions generalizing seen with
  | nil =>
      cases h
  | cons definition more ih =>
      rw [WebIdl.basesFrom] at h
      split at h
      · cases h
        exact .duplicateDefinition definition.name
      · exact ih h

theorem isMergeError_of_extend
    {definitions : List Definition} {target : Definition} {members : List WebIdl.Member}
    {error : BuildError}
    (h : WebIdl.extend definitions target members = .error error) :
    IsMergeError error := by
  rw [WebIdl.extend] at h
  split at h
  · cases h
    exact .duplicateMember _ _
  · cases h

theorem isMergeError_of_addPartial
    {definitions : List Definition} {part : Definition} {error : BuildError}
    (h : WebIdl.addPartial definitions part = .error error) :
    IsMergeError error := by
  rw [WebIdl.addPartial] at h
  split at h
  · cases h
    exact .partialWithoutBase _ _
  · exact isMergeError_of_extend h

theorem isMergeError_of_addInclusion
    {merged : Merged} {inclusion : Definition} {error : BuildError}
    (h : WebIdl.addInclusion merged inclusion = .error error) :
    IsMergeError error := by
  simp only [WebIdl.addInclusion] at h
  split at h
  · cases h
    exact .mixinTargetNotFound _ _
  · split at h
    · cases h
      exact .mixinNotFound _ _
    · split at h
      · cases h
      · split at h
        · cases h
        · rename_i hextend
          cases h
          exact isMergeError_of_extend hextend

theorem failsFor_merge
    (spec custom : Fragments) :
    FailsFor IsMergeError (Reporting.ofExcept (WebIdl.merge spec custom)) := by
  have hsteps := Reporting.composable_failsFor IsMergeError
  have hpartials : ∀ definitions part,
      FailsFor IsMergeError (Reporting.ofExcept (WebIdl.addPartial definitions part)) :=
    fun _ _ => Reporting.failsFor_ofExcept_iff.2 fun _ => isMergeError_of_addPartial
  have hinclusions : ∀ merged inclusion,
      FailsFor IsMergeError (Reporting.ofExcept (WebIdl.addInclusion merged inclusion)) :=
    fun _ _ => Reporting.failsFor_ofExcept_iff.2 fun _ => isMergeError_of_addInclusion
  rw [WebIdl.merge, WebIdl.mergeDefinitions, Reporting.ofExcept_bind]
  refine hsteps.bind (Reporting.failsFor_ofExcept_iff.2 fun _ => isMergeError_of_basesFrom) ?_
  intro bases
  rw [Reporting.ofExcept_bind]
  refine hsteps.bind (hsteps.ofExcept_foldlM hpartials) fun whole => ?_
  rw [Reporting.ofExcept_bind]
  exact hsteps.bind (hsteps.ofExcept_foldlM hinclusions) fun merged => hsteps.pure _

/-- Where merged definitions pass the check, all that are probed say where they are exposed. -/
theorem hasAttribute_of_validate
    {merged : Merged} {definition : Definition}
    (h : merged.validate = .ok ())
    (hmem : definition ∈ merged.definitions)
    (hkind : definition.kind.isProbed) :
    definition.hasAttribute "Exposed" := by
  rw [Merged.validate] at h
  split at h
  · cases h
  · rename_i hnone
    have hfine := List.find?_eq_none.1 hnone definition hmem
    simpa [Merged.lacksExposure, hkind] using hfine

theorem not_exposedNotFound_of_validate
    {merged : Merged} {kind name : String} :
    merged.validate ≠ .error (.exposedNotFound kind name) := by
  rw [Merged.validate]
  split
  · simp
  · split <;> simp

end Merging

/-! ## Scopes -/

section Scopes

variable {valid : NameSet}

theorem isLate_of_exposedScopes
    {kind owner : String} {attributes : List ExtendedAttribute} {error : BuildError}
    (hfound : (findAttribute attributes "Exposed").isSome)
    (h : WebIdl.exposedScopes kind owner attributes valid = .error error) :
    IsLate error := by
  have hnames : ∀ names, WebIdl.scopesOfNames kind owner valid names = .error error →
      IsLate error := by
    intro names hnames
    rw [WebIdl.scopesOfNames] at hnames
    split at hnames
    · cases hnames
      exact .scope _ _ _
    · cases hnames
  rw [WebIdl.exposedScopes] at h
  split at h
  · rename_i hnone
    rw [hnone] at hfound
    cases hfound
  · split at h
    · cases h
    · exact hnames _ h
    · exact hnames _ h
    · cases h
      exact .value _

theorem failsFor_exposure
    {definition : Definition}
    (h : definition.hasAttribute "Exposed") :
    FailsFor IsLate (Reporting.ofExcept (definition.exposure valid)) :=
  Reporting.failsFor_ofExcept_iff.2 fun _ => isLate_of_exposedScopes h

theorem holdsOfNarrowing_failsFor :
    HoldsOfNarrowing (fun _ => FailsFor IsLate) valid := by
  intro owner member attributes exposure
  have hsteps := Reporting.composable_failsFor IsLate
  rw [narrowExposure]
  split
  · exact hsteps.pure exposure
  · rename_i hfound
    rw [Reporting.ofExcept_bind]
    refine hsteps.bind (Reporting.failsFor_ofExcept_iff.2 fun _ => ?_) fun _ => hsteps.pure _
    exact isLate_of_exposedScopes (by simpa [Option.isSome_iff_ne_none] using hfound)

end Scopes

/-! ## Global members -/

section Globals

variable {all : List Definition} {merged : Merged} {valid : NameSet} {catalog : Catalog}

/-- Every target of a global member is an interface among the merged definitions. -/
theorem exists_target
    {item : GlobalMember} {target : String}
    (h : Linked all)
    (hitem : item ∈ (mergedOf all).globals)
    (htarget : target ∈ item.targets) :
    ∃ definition ∈ (mergedOf all).definitions,
      (mergedOf all).find? target = some definition ∧ definition.kind = .interface := by
  obtain ⟨-, mixin, -, -, -, declaration, -, rfl⟩ := (mem_globals_iff h).1 hitem
  obtain ⟨inclusion, hinclusion, rfl⟩ := List.mem_map.1 (List.mem_eraseDups.1 htarget)
  obtain ⟨base, hbase, hname, hkind⟩ := exists_target_of_globalInclusion hinclusion
  have hmem : WebIdl.flattened all base ∈ (mergedOf all).definitions :=
    List.mem_map_of_mem (List.mem_filter.2 ⟨hbase, by simp [hkind]⟩)
  exact ⟨_, hmem,
    (WebIdl.findDefinition_eq_some_iff (WebIdl.nodup_names_mergedOf h)).2 ⟨hmem, hname⟩, hkind⟩

/-- Where the scopes of targets are found, those of each target are. -/
theorem exists_exposure_of_targetExposure
    {targets : List String} {exposure : NameSet} {target : String} {definition : Definition}
    (h : targetExposure merged valid targets = .ok exposure)
    (htarget : target ∈ targets)
    (hfind : merged.find? target = some definition) :
    ∃ scopes, definition.exposure valid = .ok scopes := by
  obtain ⟨sets, hsets, -⟩ := Reporting.bind_eq_ok_iff.1 h
  obtain ⟨scopes, -, hscopes⟩ :=
    (Reporting.exists_of_forall₂ (Reporting.mapM_eq_ok_iff.1 hsets)).2 definition
      (List.mem_filterMap.2 ⟨target, htarget, hfind⟩)
  exact ⟨scopes, hscopes⟩

theorem exists_exposure_of_yields_globalEntry
    {item : GlobalMember} {tests : List (String × CompiledTest)} {name target : String}
    {definition : Definition}
    (h : Yields (globalEntry catalog valid merged item) tests)
    (hname : item.member.name = some name)
    (hkind : item.member.kind ≠ .const)
    (htarget : target ∈ item.targets)
    (hfind : merged.find? target = some definition) :
    ∃ scopes, definition.exposure valid = .ok scopes := by
  unfold globalEntry at h
  simp only [hname] at h
  rw [if_neg (by simpa using hkind)] at h
  obtain ⟨exposure, hexposure, -⟩ := Reporting.yields_bind h
  exact exists_exposure_of_targetExposure (Catalog.eq_ok_of_yields_ofExcept hexposure) htarget hfind

/-- Once definitions have been merged and checked, making tests fails for late reasons only. -/
theorem failsFor_apiTests
    (h : Linked all)
    (hvalid : (mergedOf all).validate = .ok ()) :
    FailsFor IsLate (apiTests (mergedOf all) valid catalog) := by
  have hanswers : HoldsOfAnswers (fun _ => FailsFor IsLate) catalog := by
    refine Catalog.holdsOfAnswers_failsFor ?_
    rintro error (⟨name, path⟩ | ⟨path, chain⟩)
    · exact .resource name path
    · exact .cycle path chain
  refine holdsOf_apiTests hanswers holdsOfNarrowing_failsFor ?_ ?_
  · intro definition hmem htested
    rw [isTested, Bool.and_eq_true] at htested
    exact failsFor_exposure (hasAttribute_of_validate hvalid hmem htested.1)
  · intro item hitem
    rw [targetExposure, Reporting.ofExcept_bind, Reporting.ofExcept_mapM]
    refine hanswers.bind (hanswers.mapM fun definition hdefinition => ?_) fun _ => hanswers.pure _
    obtain ⟨target, htarget, hfind⟩ := List.mem_filterMap.1 hdefinition
    obtain ⟨found, hmem, hfound, hkind⟩ := exists_target h hitem htarget
    cases hfind.symm.trans hfound
    exact failsFor_exposure (hasAttribute_of_validate hvalid hmem (by rw [hkind]; rfl))

end Globals

/-- A build never fails because an exposure is not found.  Once definitions have been merged and
checked, making their tests fails for the value or a scope of an exposure, for a resource or for a
cyclic import only.  Each target of a global member is an interface that says where it is exposed,
and where tests are made, the test of the member runs in all these scopes that the member
permits. -/
theorem apiTable_fails_late
    (spec custom : Fragments)
    (valid : NameSet)
    (catalog : Catalog) :
    (∀ before error after, Fails (apiTable spec custom valid catalog) before error after →
        ∀ kind name, error ≠ .exposedNotFound kind name) ∧
      ∀ merged, WebIdl.merge spec custom = .ok merged → merged.validate = .ok () →
        (∀ before error after, Fails (apiTests merged valid catalog) before error after →
          IsLate error) ∧
        (∀ item ∈ merged.globals, ∀ target ∈ item.targets, ∃ definition,
          merged.find? target = some definition ∧ definition.kind = .interface ∧
            definition.hasAttribute "Exposed") ∧
        ∀ before table after, Gives (apiTests merged valid catalog) before table after →
          ∀ item ∈ merged.globals, ∀ name, item.member.name = some name →
            item.member.kind ≠ .const →
            ∃ test, table.get? ("api." ++ name) = some test ∧
              ∀ target ∈ item.targets, ∃ definition scopes,
                merged.find? target = some definition ∧
                definition.exposure valid = .ok scopes ∧
                ∀ scope ∈ scopes.keys, PermittedIn valid item.member.attributes scope →
                  scope ∈ test.exposure := by
  constructor
  · rintro before _ after hfails kind name rfl
    rcases Reporting.fails_bind_iff.1 hfails with hfails | ⟨merged, middle, hmerged, hfails⟩
    · cases failsFor_merge spec custom _ _ _ hfails
    · rcases Reporting.fails_bind_iff.1 hfails with hfails | ⟨_, last, hvalid, hfails⟩
      · exact not_exposedNotFound_of_validate (Reporting.fails_ofExcept_iff.1 hfails).1
      · obtain ⟨hmerged, -⟩ := Reporting.gives_ofExcept_iff.1 hmerged
        obtain ⟨hmergeable, rfl⟩ := WebIdl.mergeDefinitions_eq_ok_iff.1 hmerged
        obtain ⟨hvalid, -⟩ := Reporting.gives_ofExcept_iff.1 hvalid
        cases failsFor_apiTests hmergeable.toLinked hvalid _ _ _ hfails
  · intro merged hmerged hvalid
    obtain ⟨hmergeable, rfl⟩ := WebIdl.mergeDefinitions_eq_ok_iff.1 hmerged
    have hlinked := hmergeable.toLinked
    refine ⟨failsFor_apiTests hlinked hvalid, ?_, ?_⟩
    · intro item hitem target htarget
      obtain ⟨definition, hmem, hfind, hkind⟩ := exists_target hlinked hitem htarget
      exact ⟨definition, hfind, hkind, hasAttribute_of_validate hvalid hmem (by rw [hkind]; rfl)⟩
    · intro before table after h item hitem name hname hkind
      obtain ⟨tests, htable, hrealizes⟩ := apiTests_realize h
      obtain ⟨test, htest⟩ := hrealizes.exists_get? (.globalMember hitem hname hkind)
      refine ⟨test, htable ▸ htest, fun target htarget => ?_⟩
      obtain ⟨definition, -, hfind, -⟩ := exists_target hlinked hitem htarget
      obtain ⟨definitions, globals, -, hglobals, -⟩ := exists_of_gives_apiTests h
      obtain ⟨made, -, hmade⟩ := (Reporting.exists_of_forall₂ hglobals).2 item hitem
      obtain ⟨scopes, hscopes⟩ :=
        exists_exposure_of_yields_globalEntry hmade hname hkind htarget hfind
      refine ⟨definition, scopes, hfind, hscopes, fun scope hscope hpermitted => ?_⟩
      have hexposed := (WebIdl.mem_exposure_iff hscopes).1 hscope
      exact (hrealizes.mem_exposure_iff htest scope).2 ⟨_, .globalMember hitem hname hkind,
        ⟨target, htarget, definition, hfind, hexposed⟩, hpermitted⟩

/-- A global object of another scope. -/
def beacon : Definition :=
  { Definition.ofKind .interface "Beacon" with
    attributes :=
      [⟨"Global", none, []⟩, ⟨"Exposed", some (.identifier "DedicatedWorker"), []⟩] }

/-- Two global objects include the mixin of a global member. -/
def harbour : Fragments :=
  .ofList
    [("base",
        [sky, beacon, starlight, horizon,
          { Definition.ofKind .includes "Beacon" with included := some WebIdl.globalMixin }])]

/-- The global member of the harbour is tested in the scopes of both global objects.  Where one of
these scopes is not valid, no tests are made, and the reason is a late one. -/
theorem apiTable_harbour :
    ∃ merged, WebIdl.merge harbour .empty = .ok merged ∧ merged.validate = .ok () ∧
      (∃ table test, Gives (apiTests merged (.ofNames ["Window", "Worker"]) .empty) [] table [] ∧
        table.get? "api.look" = some test ∧ "Window" ∈ test.exposure ∧ "Worker" ∈ test.exposure) ∧
      ∃ error, Fails (apiTests merged (.ofNames ["Window"]) .empty) [] error [] ∧ IsLate error := by
  have hmerged : WebIdl.merge harbour .empty = .ok (mergedOf (definitionsOf harbour .empty)) := rfl
  have hvalid : (mergedOf (definitionsOf harbour .empty)).validate = .ok () := by
    decide +kernel
  have hglobals : (mergedOf (definitionsOf harbour .empty)).globals =
      [⟨.ofKind .operation "look", WebIdl.globalMixin, ["Window", "Beacon"]⟩] := rfl
  refine ⟨_, hmerged, hvalid, ?_, ?_⟩
  · obtain ⟨table, h⟩ : ∃ table, Gives
        (apiTests (mergedOf (definitionsOf harbour .empty)) (.ofNames ["Window", "Worker"]) .empty)
        [] table [] := ⟨_, rfl⟩
    obtain ⟨-, -, hmade⟩ :=
      (apiTable_fails_late harbour .empty (.ofNames ["Window", "Worker"]) .empty).2 _ hmerged hvalid
    obtain ⟨test, htest, htargets⟩ := hmade _ _ _ h _ (by rw [hglobals]; exact List.mem_cons_self)
      "look" rfl (by decide)
    have hruns : ∀ target ∈ ["Window", "Beacon"], ∃ definition scopes,
        (mergedOf (definitionsOf harbour .empty)).find? target = some definition ∧
        definition.exposure (.ofNames ["Window", "Worker"]) = .ok scopes ∧
        ∀ scope ∈ scopes.keys, scope ∈ test.exposure := by
      intro target htarget
      obtain ⟨definition, scopes, hfind, hscopes, hall⟩ := htargets target htarget
      exact ⟨definition, scopes, hfind, hscopes, fun scope hscope =>
        hall scope hscope (by rintro _ ⟨⟩)⟩
    refine ⟨table, test, h, htest, ?_, ?_⟩
    · obtain ⟨definition, scopes, hfind, hscopes, hall⟩ := hruns "Window" (by simp)
      cases hfind
      cases hscopes
      exact hall "Window" (by decide)
    · obtain ⟨definition, scopes, hfind, hscopes, hall⟩ := hruns "Beacon" (by simp)
      cases hfind
      cases hscopes
      exact hall "Worker" (by decide)
  · obtain ⟨error, h⟩ : ∃ error, Fails
        (apiTests (mergedOf (definitionsOf harbour .empty)) (.ofNames ["Window"]) .empty)
        [] error [] := ⟨_, rfl⟩
    exact ⟨error, h, ((apiTable_fails_late harbour .empty (.ofNames ["Window"]) .empty).2 _ hmerged
      hvalid).1 _ _ _ h⟩

end Build
end FeatureProbes
