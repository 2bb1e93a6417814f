import FeatureProbes.Catalog.Override
import FeatureProbes.Json.Decode
import FeatureProbes.Probe.Table

/-!
# Tests of style properties

Specifications list the names of properties.  Further properties may be listed by hand, with their
values and with groups of values of which one is enough.
-/

namespace FeatureProbes
namespace Build

open Json (Record Value)
open Probe (CompiledTest RawTest Table TestCode)

/-- A property that is listed by hand. -/
structure CustomProperty where
  /-- Values that are tested one by one. -/
  values : List String
  /-- Groups of values, by the names of the groups. -/
  groups : SortedMap (List String)

/-- Properties that are listed by hand, by their names. -/
abbrev CustomProperties := SortedMap CustomProperty

/-- The properties that specifications list, by the names of the specifications. -/
abbrev SpecProperties := SortedMap (List String)

/-- The values and groups that a value lists for a property. -/
def CustomProperty.ofValue? (value : Value) : Option CustomProperty := do
  let record ← Record.ofValue? ["__values", "__additional_values"] value
  let values ← record.optional? "__values" Value.strings? []
  let groups ← record.optional? "__additional_values" (Value.map? Value.strings?) .empty
  return ⟨values, groups⟩

/-- The properties that are listed by hand in a document. -/
def CustomProperties.ofValue? (value : Value) : Option CustomProperties := do
  let record ← Record.ofValue? ["properties"] value
  record.optional? "properties" (Value.map? CustomProperty.ofValue?) .empty

/-- The properties that specifications list in a document. -/
def SpecProperties.ofValue? (value : Value) : Option SpecProperties :=
  value.map? fun value => do
    let record ← Record.ofValue? ["properties"] value
    record.optional? "properties" Value.strings? []

/-- The check that a property is known. -/
def propertyProbe (name : String) : TestCode :=
  .raw ("bcd.testCSSProperty(" ++ Text.quoted name ++ ")")

/-- The check that a property takes a value. -/
def valueProbe (name value : String) : TestCode :=
  .raw ("bcd.testCSSProperty(" ++ Text.quoted name ++ ", " ++ Text.quoted value ++ ")")

/-- The test at a path: that of the catalog if it has one, else the given one. -/
def testAt (catalog : Catalog) (exposure : List String) (path : String) (code : TestCode) :
    Reporting (String × CompiledTest) := do
  let custom ← catalog.test path
  let code := (custom.test.map TestCode.raw).getD code
  return (path, RawTest.compile ⟨code, custom.resources, exposure⟩)

/-- The path of a property. -/
def propertyPath (name : String) : String := "css.properties." ++ name

/-- The paths and probes of a property that is listed by hand, the property itself first. -/
def customProbes (name : String) (property : CustomProperty) : List (String × TestCode) :=
  let path := propertyPath name
  (path, propertyProbe name) ::
    ((property.values.map fun value => (path ++ "." ++ value, valueProbe name value)) ++
      property.groups.entries.map fun (group, values) =>
        (path ++ "." ++ group, .combined (values.map (valueProbe name)) .any))

/-- The names of all properties that the specifications list. -/
def specNames (spec : SpecProperties) : NameSet :=
  .ofNames (spec.entries.flatMap Prod.snd)

/-- The paths and probes of all properties, in the order of their names. -/
def cssProbes (spec : SpecProperties) (custom : CustomProperties) : List (String × TestCode) :=
  let listed : SortedMap (List (String × TestCode)) :=
    .ofList ((specNames spec).keys.map fun name =>
      (name, [(propertyPath name, propertyProbe name)]))
  let all := listed.insertAll (custom.entries.map fun (name, property) =>
    (name, customProbes name property))
  all.entries.flatMap Prod.snd

/-- The tests of all properties.  What a specification lists must not be listed by hand. -/
def cssTable (spec : SpecProperties) (custom : CustomProperties) (catalog : Catalog) :
    Reporting Table := do
  match custom.keys.find? (specNames spec).contains with
  | some name => throw (.cssPropertyAlreadyKnown name)
  | none =>
      let tests ← (cssProbes spec custom).mapM fun (path, code) =>
        testAt catalog ["Window"] path code
      return Table.ofTests tests

end Build
end FeatureProbes
