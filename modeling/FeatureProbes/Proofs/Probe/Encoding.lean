import FeatureProbes.Catalog.Codec
import FeatureProbes.Probe.Codec
import FeatureProbes.Proofs.Catalog.Format
import FeatureProbes.Proofs.Json.Encoding

/-!
# Tests that are written and read back

Probes, resources, tests before and after they are compiled, tables of tests and diagnostics are
read back as they were written.  A test without resources to speak of is written without them, one
with an empty map of resources with this map, so both are told apart.
-/

namespace FeatureProbes

open Json (Value)

theorem Diagnostic.isPrintable_toValue
    (diagnostic : Diagnostic) :
    diagnostic.toValue.IsPrintable :=
  .object (by simp [Value.IsPrintable.string])

namespace Catalog
namespace Resource

theorem ofValue?_toValue
    (resource : Resource) :
    ofValue? resource.toValue = some resource := by
  have hread : Resource.ofValue resource.toValue = .ok resource := by
    cases resource with
    | medium kind places =>
        exact resource_ofValue_eq_ok_iff.2 (.record rfl rfl (.medium kind places))
    | object script =>
        exact resource_ofValue_eq_ok_iff.2 (.record rfl rfl (.object script))
  rw [ofValue?, hread]
  rfl

theorem isPrintable_toValue
    (resource : Resource) :
    resource.toValue.IsPrintable := by
  cases resource <;>
    exact .object (by simp [Value.IsPrintable.string, Value.isPrintable_ofStrings])

end Resource
end Catalog

namespace Probe

open Catalog (Resource Resources)

theorem map?_resources
    (resources : Resources) :
    (Value.ofMap Resource.toValue resources).map? Resource.ofValue? = some resources :=
  Value.map?_ofMap Resource.ofValue?_toValue resources

namespace MemberRef

theorem ofValue?_toValue
    (ref : MemberRef) :
    ofValue? ref.toValue = some ref :=
  rfl

theorem isPrintable_toValue
    (ref : MemberRef) :
    ref.toValue.IsPrintable :=
  .object (by simp [Value.IsPrintable.string, Value.IsPrintable.bool])

end MemberRef

namespace TestCode

theorem toValues_eq_map
    (items : List TestCode) :
    toValues items = items.map toValue := by
  induction items with
  | nil =>
      rfl
  | cons item more ih =>
      rw [toValues, ih, List.map_cons]

/-- What holds of single probes, and of combined ones if it holds of their parts, holds of every
probe. -/
theorem induction_of_parts
    {motive : TestCode → Prop}
    (raw : ∀ code, motive (raw code))
    (member : ∀ ref, motive (member ref))
    (combined : ∀ items combinator, (∀ item ∈ items, motive item) →
      motive (combined items combinator))
    (code : TestCode) :
    motive code := by
  refine @TestCode.rec motive (fun items => ∀ item ∈ items, motive item)
    raw member (fun items combinator ih => combined items combinator ih) nofun ?cons code
  case cons =>
    exact fun _ _ hfirst hmore => List.forall_mem_cons.2 ⟨hfirst, hmore⟩

/-- A probe is read back within more levels than its value has. -/
theorem ofValueWithin?_toValue
    (code : TestCode)
    {levels : Nat}
    (h : code.toValue.depth < levels) :
    ofValueWithin? levels code.toValue = some code := by
  induction code using induction_of_parts generalizing levels with
  | raw code =>
      obtain ⟨levels, rfl⟩ := Nat.exists_eq_add_one.2 (Nat.zero_lt_of_lt h)
      rfl
  | member ref =>
      obtain ⟨levels, rfl⟩ := Nat.exists_eq_add_one.2 (Nat.zero_lt_of_lt h)
      rfl
  | combined items combinator ih =>
      obtain ⟨levels, rfl⟩ := Nat.exists_eq_add_one.2 (Nat.zero_lt_of_lt h)
      rw [toValue, Value.depth_choice] at h
      simp only [Value.depth, Value.depthOfMembers] at h
      have hread : ofValueWithin? (levels + 1) (combined items combinator).toValue =
          (do
            let items ← (Value.array (toValues items)).list? (ofValueWithin? levels)
            let combinator ← Combinator.ofValue? (.string combinator.operator)
            return combined items combinator) := rfl
      have hitems : (Value.array (toValues items)).list? (ofValueWithin? levels) = some items := by
        rw [toValues_eq_map] at h ⊢
        refine Value.list?_map fun item hitem => ih item hitem ?_
        have hle := Value.depth_le_depthOfItems (List.mem_map_of_mem (f := toValue) hitem)
        omega
      rw [hread, hitems]
      cases combinator <;> rfl

theorem ofValue?_toValue
    (code : TestCode) :
    ofValue? code.toValue = some code :=
  ofValueWithin?_toValue code (Nat.lt_succ_self _)

theorem isPrintable_toValue
    (code : TestCode) :
    code.toValue.IsPrintable := by
  induction code using induction_of_parts with
  | raw code =>
      exact Value.isPrintable_choice _ (.string code)
  | member ref =>
      exact Value.isPrintable_choice _ ref.isPrintable_toValue
  | combined items combinator ih =>
      have hitems : (Value.array (toValues items)).IsPrintable := by
        rw [toValues_eq_map]
        exact .array (List.forall_mem_map.2 ih)
      exact Value.isPrintable_choice _
        (.object (by simp [hitems, Value.IsPrintable.string combinator.operator]))

end TestCode

namespace RawTest

theorem ofValue?_toValue
    (test : RawTest) :
    ofValue? test.toValue = some test := by
  have hread : ofValue? test.toValue =
      (do
        let code ← TestCode.ofValue? test.code.toValue
        let resources ← (Value.ofMap Resource.toValue test.resources).map? Resource.ofValue?
        let exposure ← (Value.ofStrings test.exposure).strings?
        return ⟨code, resources, exposure⟩) := rfl
  rw [hread, TestCode.ofValue?_toValue, map?_resources, Value.strings?_ofStrings]
  rfl

theorem isPrintable_toValue
    (test : RawTest) :
    test.toValue.IsPrintable :=
  .object (by
    simp [TestCode.isPrintable_toValue, Value.isPrintable_ofMap Resource.isPrintable_toValue,
      Value.isPrintable_ofStrings])

end RawTest

namespace CompiledTest

theorem ofValue?_toValue
    (test : CompiledTest) :
    ofValue? test.toValue = some test := by
  obtain ⟨code, exposure, resources⟩ := test
  cases resources with
  | none =>
      have hread : ofValue? (toValue ⟨code, exposure, none⟩) =
          (do
            let exposure ← (Value.ofStrings exposure).strings?
            return ⟨code, exposure, none⟩) := rfl
      rw [hread, Value.strings?_ofStrings]
      rfl
  | some resources =>
      have hread : ofValue? (toValue ⟨code, exposure, some resources⟩) =
          (do
            let exposure ← (Value.ofStrings exposure).strings?
            let resources ← Value.nullable? (Value.map? Resource.ofValue?)
              (.ofOption (.ofMap Resource.toValue) (some resources))
            return ⟨code, exposure, resources⟩) := rfl
      rw [hread, Value.strings?_ofStrings, Value.nullable?_ofOption map?_resources nofun]
      rfl

theorem isPrintable_toValue
    (test : CompiledTest) :
    test.toValue.IsPrintable := by
  obtain ⟨code, exposure, resources⟩ := test
  refine .object ?_
  cases resources with
  | none =>
      simp [Value.IsPrintable.string, Value.isPrintable_ofStrings]
  | some resources =>
      simp [Value.IsPrintable.string, Value.isPrintable_ofStrings,
        Value.isPrintable_ofMap Resource.isPrintable_toValue]

end CompiledTest

namespace Table

theorem ofValue?_toValue
    (table : Table) :
    ofValue? table.toValue = some table :=
  Value.map?_ofMap CompiledTest.ofValue?_toValue table

theorem isPrintable_toValue
    (table : Table) :
    table.toValue.IsPrintable :=
  Value.isPrintable_ofMap CompiledTest.isPrintable_toValue table

end Table
end Probe
end FeatureProbes
