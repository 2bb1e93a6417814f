import FeatureProbes.Proofs.Build.DefaultCode
import FeatureProbes.Proofs.Build.Entries

/-!
# Members of global objects

What belongs to a global object is reached without an object in front of it.  Definitions say by an
extended attribute that they describe a global object.  The merge also takes the interface of
windows for one if it lacks the attribute, but the probes of its members do not.
-/

namespace FeatureProbes
namespace Build

open Catalog (memberPath)
open Probe (IsPlainName Table)
open Reporting (Gives)
open WebIdl (Definition Merged)

section Silent

variable {catalog : Catalog} {valid : NameSet} {merged : Merged}

/-- Where the catalog is silent and names are plain, a property of a definition is looked for on the
global object if the definition says that it describes one, else on a prototype. -/
theorem exists_property_test
    {before after : Diagnostics} {table : Table} {definition : Definition} {name : String}
    {probe : ProbeMember}
    (hsilent : catalog.root.child? "api" = none)
    (hnames : PlainNames merged.definitions)
    (h : Gives (apiTests merged valid catalog) before table after)
    (hmem : definition ∈ merged.definitions)
    (htested : isTested definition)
    (hname : IsPlainName name)
    (hprobe : (probesOf definition).find? (fun probe => probe.name = name) = some probe)
    (hkind : probe.kind = .property) :
    ∃ test, table.get? (memberPath definition.name name) = some test ∧
      test.code =
        if definition.hasAttribute "Global" then globalProbe name
        else prototypeProbe definition.name name := by
  obtain ⟨test, custom, htest, hcustom, hcode⟩ := exists_memberTest hnames h hmem htested hprobe
  rw [memberTest_of_silent hsilent] at hcustom
  obtain rfl := Catalog.eq_of_yields_pure hcustom
  obtain rfl : probe.name = name := by
    simpa using List.find?_some hprobe
  exact ⟨test, htest, hcode.trans (compile_defaultCode (hnames.plain definition hmem) hname hkind)⟩

/-- Of what the merge takes for global objects, only the interface of windows can have properties
that are looked for on a prototype, and it has them just where it lacks the attribute. -/
theorem globalProbe_iff_of_isGlobalObject
    {before after : Diagnostics} {table : Table} {definition : Definition} {name : String}
    {probe : ProbeMember}
    (hsilent : catalog.root.child? "api" = none)
    (hnames : PlainNames merged.definitions)
    (h : Gives (apiTests merged valid catalog) before table after)
    (hmem : definition ∈ merged.definitions)
    (htested : isTested definition)
    (hglobal : definition.isGlobalObject)
    (hname : IsPlainName name)
    (hprobe : (probesOf definition).find? (fun probe => probe.name = name) = some probe)
    (hkind : probe.kind = .property) :
    ∃ test, table.get? (memberPath definition.name name) = some test ∧
      (test.code = globalProbe name ↔
        (definition.name = WebIdl.globalInterface → definition.hasAttribute "Global")) := by
  obtain ⟨test, htest, hcode⟩ :=
    exists_property_test hsilent hnames h hmem htested hname hprobe hkind
  refine ⟨test, htest, ?_⟩
  rw [Definition.isGlobalObject, Bool.or_eq_true, beq_iff_eq] at hglobal
  by_cases hattribute : definition.hasAttribute "Global"
  · rw [hcode, if_pos hattribute]
    exact iff_of_true rfl fun _ => hattribute
  · rw [hcode, if_neg hattribute]
    refine iff_of_false (globalProbe_ne_prototypeProbe _ _).symm fun himp => ?_
    exact hattribute (himp (hglobal.resolve_right hattribute))

end Silent

end Build
end FeatureProbes
