import FeatureProbes.Proofs.Build.Entries
import FeatureProbes.Proofs.Catalog.Precedence

/-!
# Which code a path has

The code at the path of a definition or of a member is the probe that is made without the catalog,
unless the catalog gives a body for it.  Then it is what this body is finished to.

Both kinds of code can be told apart: finished code begins with a parenthesis, and no probe does.
-/

namespace FeatureProbes
namespace Build

open Catalog (interfacePath memberPath)
open Probe (CompiledTest MemberRef Table TestCode)
open Reporting (Gives Yields)
open Script (IsScriptThat)
open WebIdl (Definition Member Merged)

/-! ## Probes and finished code -/

/-- A text begins with a quotation mark or as a call does, so it is not finished code. -/
def IsProbeStart (text : String) : Prop :=
  text.toList.head? = some '"' ∨ text.toList.head? = some 'b'

theorem IsProbeStart.append
    {text : String}
    (h : IsProbeStart text)
    (rest : String) :
    IsProbeStart (text ++ rest) := by
  rw [IsProbeStart, String.toList_append, List.head?_append]
  rcases h with h | h
  · exact Or.inl (by rw [h, Option.some_or])
  · exact Or.inr (by rw [h, Option.some_or])

theorem isProbeStart_allOf
    {condition : String}
    (h : IsProbeStart condition)
    (more : List String) :
    IsProbeStart (Probe.allOf (condition :: more)) := by
  cases more with
  | nil =>
      exact h
  | cons next more =>
      have hjoined : Probe.allOf (condition :: next :: more) =
          condition ++ (" && " ++ Probe.allOf (next :: more)) := by
        rw [Probe.allOf, String.intercalate_cons_cons, String.append_assoc, Probe.allOf]
      rw [hjoined]
      exact h.append _

theorem isProbeStart_has
    (property owner : String) :
    IsProbeStart (Probe.has property owner) := by
  rw [Probe.has, Probe.inQuotes, String.append_assoc, String.append_assoc, String.append_assoc]
  exact IsProbeStart.append (Or.inl rfl) _

theorem isProbeStart_ownerGuard
    (owner : String) :
    IsProbeStart (Probe.ownerGuard owner) := by
  rw [Probe.ownerGuard, Probe.guardParts]
  cases hsegments : Text.segments owner with
  | nil =>
      exact absurd hsegments (Text.segments_ne_nil owner)
  | cons segment more =>
      rw [List.zipIdx_cons, List.map_cons]
      exact isProbeStart_allOf (isProbeStart_has _ _) _

theorem isProbeStart_code
    (owner property : String) :
    IsProbeStart (MemberRef.of owner property).code := by
  rw [MemberRef.code]
  split
  · rw [String.append_assoc]
    exact IsProbeStart.append (Or.inr rfl) _
  · split
    · exact isProbeStart_allOf (isProbeStart_has _ _) _
    · rw [MemberRef.propertyCode, MemberRef.guarded]
      split
      · exact isProbeStart_has _ _
      · exact isProbeStart_allOf (isProbeStart_ownerGuard _) _

theorem head?_wrap
    (body : String) :
    (Script.wrap body).toList.head? = some '(' := by
  rw [Script.wrap, String.append_assoc, String.toList_append, List.head?_append]
  rfl

theorem head?_of_yields_finish
    {path body code : String}
    (h : Yields (Catalog.finish path body) code) :
    code.toList.head? = some '(' := by
  obtain ⟨before, after, h⟩ := h
  rcases Catalog.gives_finish_iff.1 h with ⟨-, rfl, -⟩ | ⟨fault, -, -, rfl⟩
  · exact head?_wrap _
  · exact head?_wrap _

/-- No probe of a property is finished code. -/
theorem code_ne_of_yields_finish
    {path body code owner property : String}
    (h : Yields (Catalog.finish path body) code) :
    code ≠ TestCode.compile (.member (.of owner property)) := by
  rintro rfl
  have hhead := head?_of_yields_finish h
  rcases isProbeStart_code owner property with hstart | hstart
  · cases hhead.symm.trans hstart
  · cases hhead.symm.trans hstart

section Precedence

variable {catalog : Catalog} {valid : NameSet} {merged : Merged}

/-- Where names are plain, the code of a definition is its own probe unless the catalog has a test
or setup code for it, and the code of a member is the probe of its first declaration unless the
catalog gives a body for this declaration.  In the other cases it is what this body is finished
to. -/
theorem apiTests_precedence
    {before after : Diagnostics} {table : Table}
    (hnames : PlainNames merged.definitions)
    (h : Gives (apiTests merged valid catalog) before table after) :
    ∀ definition ∈ merged.definitions, isTested definition →
      (∀ name probe,
        (probesOf definition).find? (fun probe => probe.name = name) = some probe →
        ∃ test, table.get? (memberPath definition.name name) = some test ∧
          (test.code = (defaultCode definition probe).compile ↔
            catalog.KeepsDefault definition.name name probe.kind) ∧
          (¬catalog.KeepsDefault definition.name name probe.kind →
            ∃ body, catalog.GivesBody definition.name name probe.kind body ∧
              Yields (Catalog.finish (memberPath definition.name name) body) test.code)) ∧
      ∃ test, table.get? (interfacePath definition.name) = some test ∧
        (test.code = TestCode.compile (.member (.of "self" definition.name)) ↔
          ¬catalog.HasCode definition.name) ∧
        (catalog.HasCode definition.name →
          ∃ body, catalog.ResolvesInterface definition.name body ∧
            Yields (Catalog.finish (interfacePath definition.name) body) test.code) := by
  intro definition hmem htested
  constructor
  · intro name probe hprobe
    obtain ⟨test, custom, htest, hcustom, hcode⟩ := exists_memberTest hnames h hmem htested hprobe
    refine ⟨test, htest, ?_⟩
    rcases Catalog.memberTest_cases hcustom with
      ⟨hkeeps, hnone⟩ | ⟨hgives, body, code, hbody, hfinish, hsome⟩
    · rw [hnone] at hcode
      exact ⟨iff_of_true hcode hkeeps, fun hgives => absurd hkeeps hgives⟩
    · rw [hsome] at hcode
      obtain rfl : test.code = code := hcode
      exact ⟨iff_of_false (code_ne_of_yields_finish hfinish) hgives, fun _ => ⟨body, hbody, hfinish⟩⟩
  · obtain ⟨test, custom, htest, hcustom, hcode⟩ := exists_interfaceTest hnames h hmem htested
    refine ⟨test, htest, ?_⟩
    rcases Catalog.interfaceTest_cases hcustom with
      ⟨hsilent, hnone⟩ | ⟨hhas, body, code, hbody, hfinish, hsome⟩
    · rw [hnone] at hcode
      exact ⟨iff_of_true hcode hsilent, fun hhas => absurd hhas hsilent⟩
    · rw [hsome] at hcode
      obtain rfl : test.code = code := hcode
      exact ⟨iff_of_false (code_ne_of_yields_finish hfinish) (not_not_intro hhas),
        fun _ => ⟨body, hbody, hfinish⟩⟩

end Precedence

/-! ## A parcel -/

/-- An interface with some members. -/
def parcel (members : List Member) : Merged where
  definitions :=
    [{ Definition.ofKind .interface "Parcel" with
        members := members
        attributes := [⟨"Exposed", some .wildcard, []⟩] }]
  globals := []

theorem plainNames_parcel
    (members : List Member) :
    PlainNames (parcel members).definitions := by
  constructor
  · exact List.nodup_singleton _
  · intro definition hmem
    rw [List.mem_singleton.1 hmem]
    change '.' ∉ "Parcel".toList
    decide

/-- The attributes of a parcel, and its static operation. -/
def parcelMembers : List Member :=
  [.ofKind .attr (some "open"), .ofKind .attr (some "weight"),
    { Member.ofKind .operation (some "send") with special := some .static }]

/-- A catalog with setup code and a test for the parcel, and with both for one attribute. -/
def parcelCatalog (setup : String) : Catalog where
  root := { Catalog.Node.empty with
    children := [("api", { Catalog.Node.empty with
      children := [("Parcel", { Catalog.Node.empty with
        base := some setup
        test := some "return 1;"
        children := [("weight", { Catalog.Node.empty with
          base := some "let kg = 2;"
          test := some "return kg;" })] })] })] }
  resources := .empty

/-- The code that a build gives for a path. -/
def codeAt?
    (build : Reporting Table)
    (path : String) :
    Option String :=
  match build.outcome [] with
  | (.ok table, _) => (table.get? path).map CompiledTest.code
  | (.error _, _) => none

theorem exists_of_codeAt?
    {build : Reporting Table} {path code : String}
    (h : codeAt? build path = some code) :
    ∃ table after, Gives build [] table after ∧
      ∃ test, table.get? path = some test ∧ test.code = code := by
  rw [codeAt?] at h
  split at h
  · rename_i table after houtcome
    exact ⟨table, after, houtcome, Option.map_eq_some_iff.1 h⟩
  · cases h

/-- The parcel's attributes are tested on its instance, one of them by a test of its own, and the
static operation keeps its probe. -/
theorem apiTests_parcel :
    ∃ table after,
      Gives (apiTests (parcel parcelMembers) (.ofNames ["Window"])
        (parcelCatalog "let instance;")) [] table after ∧
      (∃ test, table.get? "api.Parcel.open" = some test ∧
        Yields
          (Catalog.finish "api.Parcel.open"
            (Script.join ["let instance;", "return !!instance && \"open\" in instance;"]))
          test.code) ∧
      (∃ test, table.get? "api.Parcel.weight" = some test ∧
        Yields
          (Catalog.finish "api.Parcel.weight"
            (Script.join ["let instance;", "let kg = 2;", "return kg;"]))
          test.code) ∧
      (∃ test, table.get? "api.Parcel.send" = some test ∧
        test.code = "\"Parcel\" in self && \"send\" in Parcel") ∧
      ∃ test, table.get? "api.Parcel" = some test ∧ test.code ≠ "\"Parcel\" in self" := by
  have hbuilds : (codeAt? (apiTests (parcel parcelMembers) (.ofNames ["Window"])
      (parcelCatalog "let instance;")) "api.Parcel.open").isSome := by
    decide +kernel
  obtain ⟨code, hcode⟩ := Option.isSome_iff_exists.1 hbuilds
  obtain ⟨table, after, h, -⟩ := exists_of_codeAt? hcode
  have hexpand : ∀ origin code text, Catalog.importTargets code = [] →
      Yields ((parcelCatalog "let instance;").expand origin code) text → text = code := by
    intro origin code text hnone hyields
    rw [Catalog.expand_of_no_import origin hnone] at hyields
    exact (Catalog.eq_of_yields_pure hyields).symm
  have hexpand? : ∀ origin code result, Catalog.importTargets code = [] →
      Yields ((parcelCatalog "let instance;").expand? origin (some code)) result →
        result = some code := by
    intro origin code result hnone hyields
    cases Catalog.yields_expand?_iff.1 hyields with
    | some hfound => rw [hexpand origin code _ hnone hfound]
  obtain ⟨hmembers, test, htest, hcode, -⟩ :=
    apiTests_precedence (plainNames_parcel _) h _ List.mem_cons_self rfl
  refine ⟨table, after, h, ?_, ?_, ?_, test, htest, ?_⟩
  · obtain ⟨test, htest, -, hgives⟩ := hmembers "open" _ rfl
    obtain ⟨body, hbody, hfinish⟩ := hgives <| by
      intro hkeeps
      cases hkeeps with
      | constructor hkind => cases hkind
      | marked hchild => cases hchild
      | untested _ hbase =>
          rcases hbase with hkind | hbase
          · cases hkind
          · cases hbase
    cases hbody with
    | tested hchild => cases hchild
    | @asserted setup base ending _ hsetup hbase hends =>
        cases hsetup
        obtain rfl := hexpand _ _ _ (by decide) hbase
        rw [hends.returned (by decide +kernel) (by decide +kernel)] at hfinish
        exact ⟨test, htest, hfinish⟩
  · obtain ⟨test, htest, -, hgives⟩ := hmembers "weight" _ rfl
    obtain ⟨body, hbody, hfinish⟩ := hgives <| by
      intro hkeeps
      cases hkeeps with
      | constructor hkind => cases hkind
      | marked hchild hmark =>
          cases hchild
          cases hmark
      | untested htest => cases htest
    cases hbody with
    | tested hchild htest hbase hown hcode =>
        cases hchild
        cases htest
        obtain rfl := hexpand? _ "let instance;" _ (by decide) hbase
        obtain rfl := hexpand? _ "let kg = 2;" _ (by decide) hown
        obtain rfl := hexpand _ _ _ (by decide) hcode
        exact ⟨test, htest, hfinish⟩
    | asserted htest => cases htest
  · obtain ⟨test, htest, hkeeps, -⟩ := hmembers "send" _ rfl
    exact ⟨test, htest, hkeeps.2 (.untested rfl (Or.inl rfl))⟩
  · intro hsame
    exact hcode.1 hsame ⟨_, rfl, Or.inl rfl⟩

/-- A function that setup code declares at its top level is not taken for the promise: no code of the
form for promises stands at the path. -/
theorem apiTests_promiseFunction :
    IsScriptThat (·.DeclaresFunction "promise") "function promise() \x7b\x7d" ∧
    ∃ table after,
      Gives (apiTests (parcel [.ofKind .attr (some "open")]) (.ofNames ["Window"])
        (parcelCatalog "function promise() \x7b\x7d")) [] table after ∧
      ∃ test, table.get? "api.Parcel.open" = some test ∧
        ¬Yields
          (Catalog.finish "api.Parcel.open"
            (Script.join
              ["function promise() \x7b\x7d",
                Catalog.instanceAssertion ⟨true, false⟩
                  (Catalog.memberAssertion .property "open")]))
          test.code := by
  refine ⟨by decide +kernel, ?_⟩
  have hcode : codeAt? (apiTests (parcel [.ofKind .attr (some "open")]) (.ofNames ["Window"])
      (parcelCatalog "function promise() \x7b\x7d")) "api.Parcel.open" =
        some ("(function () \x7b\n  function promise() \x7b\x7d\n" ++
          "  return !!instance && \"open\" in instance;\n\x7d)()") := by
    decide +kernel
  obtain ⟨table, after, h, test, htest, hcode⟩ := exists_of_codeAt? hcode
  refine ⟨table, after, h, test, htest, ?_⟩
  rintro ⟨first, last, hfinish⟩
  rcases Catalog.gives_finish_iff.1 hfinish with ⟨-, hwrap, -⟩ | ⟨fault, -, -, hthrow⟩
  · have hchars := congrArg String.toList (hwrap.trans hcode)
    rw [Script.wrap, Script.join, String.toList_ofList, String.toList_append,
      String.toList_append, String.toList_ofList] at hchars
    exact absurd hchars (by decide +kernel)
  · have hchars := congrArg String.toList (hthrow.trans hcode)
    rw [Script.toList_wrap_throwing] at hchars
    simp at hchars

end Build
end FeatureProbes
