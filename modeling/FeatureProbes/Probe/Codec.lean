import FeatureProbes.Json.Decode
import FeatureProbes.Json.Encode
import FeatureProbes.Probe.Table

/-!
# Tests as data

Probes, tests and tables of tests are written as data documents and read back.  Every field is
written, but for the resources of a test that has none to speak of.
-/

namespace FeatureProbes
namespace Probe

open Catalog (Resource)
open Json (Value Record)

/-- The property of an object as data. -/
def MemberRef.toValue (ref : MemberRef) : Value :=
  .object
    [("owner", .string ref.owner), ("property", .string ref.property),
      ("inherit", .bool ref.isOwn), ("symbol", .bool ref.isSymbol)]

/-- The property of an object that a value stands for. -/
def MemberRef.ofValue? (value : Value) : Option MemberRef := do
  let record ← Record.ofValue? ["owner", "property", "inherit", "symbol"] value
  let owner ← record.required? "owner" Value.string?
  let property ← record.required? "property" Value.string?
  let isOwn ← record.optional? "inherit" Value.bool? false
  let isSymbol ← record.optional? "symbol" Value.bool? false
  return ⟨owner, property, isOwn, isSymbol⟩

/-- The combinator that a value names. -/
def Combinator.ofValue? (value : Value) : Option Combinator := do
  match ← value.plainChoice? with
  | "&&" => some all
  | "||" => some any
  | _ => none

namespace TestCode

mutual

/-- A probe as data. -/
def toValue : TestCode → Value
  | raw code => .choice "raw" (.string code)
  | member ref => .choice "member" ref.toValue
  | combined items combinator =>
      .choice "combined"
        (.object
          [("items", .array (toValues items)), ("combinator", .string combinator.operator)])

/-- Probes as data. -/
def toValues : List TestCode → List Value
  | [] => []
  | item :: more => toValue item :: toValues more

end

/-- The probe that a value stands for, within a number of levels. -/
def ofValueWithin? : Nat → Value → Option TestCode
  | 0, _ => none
  | levels + 1, value => do
      match ← value.choice? with
      | ("raw", some value) => raw <$> value.string?
      | ("member", some value) => member <$> MemberRef.ofValue? value
      | ("combined", some value) =>
          let record ← Record.ofValue? ["items", "combinator"] value
          let items ← record.required? "items" (Value.list? (ofValueWithin? levels))
          let combinator ← record.required? "combinator" Combinator.ofValue?
          return combined items combinator
      | _ => none

/-- The probe that a value stands for.  A value has more levels than the probe. -/
def ofValue? (value : Value) : Option TestCode :=
  ofValueWithin? (value.depth + 1) value

end TestCode

/-- An uncompiled test as data. -/
def RawTest.toValue (test : RawTest) : Value :=
  .object
    [("code", test.code.toValue), ("resources", .ofMap Resource.toValue test.resources),
      ("exposure", .ofStrings test.exposure)]

/-- The uncompiled test that a value stands for. -/
def RawTest.ofValue? (value : Value) : Option RawTest := do
  let record ← Record.ofValue? ["code", "resources", "exposure"] value
  let code ← record.required? "code" TestCode.ofValue?
  let resources ← record.optional? "resources" (Value.map? Resource.ofValue?) .empty
  let exposure ← record.required? "exposure" Value.strings?
  return ⟨code, resources, exposure⟩

namespace CompiledTest

/-- The compiled test that a value stands for. -/
def ofValue? (value : Value) : Option CompiledTest := do
  let record ← Record.ofValue? ["code", "exposure", "resources"] value
  let code ← record.required? "code" Value.string?
  let exposure ← record.required? "exposure" Value.strings?
  let resources ← record.nullable? "resources" (Value.map? Resource.ofValue?)
  return ⟨code, exposure, resources⟩

/-- A test as data; resources are written only if there are some to speak of. -/
def toValue (test : CompiledTest) : Value :=
  let resources :=
    match test.resources with
    | none => []
    | some resources => [("resources", Value.ofMap Resource.toValue resources)]
  .object (("code", .string test.code) :: ("exposure", .ofStrings test.exposure) :: resources)

end CompiledTest

/-- A table as data. -/
def Table.toValue (table : Table) : Value :=
  .ofMap CompiledTest.toValue table

/-- The table that a value stands for. -/
def Table.ofValue? (value : Value) : Option Table :=
  value.map? CompiledTest.ofValue?

end Probe
end FeatureProbes
