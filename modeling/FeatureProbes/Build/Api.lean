import FeatureProbes.Catalog.Override
import FeatureProbes.Probe.Table
import FeatureProbes.WebIdl.Exposure
import FeatureProbes.WebIdl.Validation

/-!
# Tests of interfaces

Every interface and namespace gets a test, and every member that can be observed gets one below
it.  Some members stand for several names: an iterable, for instance, has the methods of
iteration.  A member can be reached at most where its interface can be reached.
-/

namespace FeatureProbes
namespace Build

open Catalog (Override)
open Probe (CompiledTest MemberRef RawTest Table TestCode)
open WebIdl (Definition ExtendedAttribute Member Merged)

/-- The methods of an iterable that is not asynchronous. -/
def iterableMethods : List String := ["entries", "forEach", "keys", "values"]

/-- The methods of an asynchronous iterable of pairs, besides those of all. -/
def asyncPairMethods : List String := ["entries", "keys"]

/-- What can be read of a maplike object. -/
def maplikeMethods : List String :=
  ["entries", "forEach", "get", "has", "keys", "size", "values"]

/-- What changes a maplike object. -/
def maplikeMutators : List String := ["clear", "delete", "set"]

/-- What can be read of a setlike object. -/
def setlikeMethods : List String := ["entries", "forEach", "has", "keys", "size", "values"]

/-- What changes a setlike object. -/
def setlikeMutators : List String := ["add", "clear", "delete"]

/-- Something that can be observed by name. -/
structure ProbeMember where
  name : String
  kind : ProbeKind
  /-- The extended attributes of the member that declares it. -/
  attributes : List ExtendedAttribute
  deriving Repr

/-- Probes of properties that stand under the extended attributes of a member. -/
def propertiesOf (member : Member) (names : List String) : List ProbeMember :=
  names.map fun name => ⟨name, .property, member.attributes⟩

/-- The probe of a well-known symbol, under the extended attributes of a member. -/
def symbolOf (member : Member) (name : String) : ProbeMember :=
  ⟨name, .symbol, member.attributes⟩

/-- How the attributes and operations of a definition are probed. -/
def kindOfMember (definition : Definition) (member : Member) : ProbeKind :=
  if member.special == some .static || definition.kind == .nameSpace then .static else .property

/-- What an attribute or an operation declares.  Without a name only a stringifier can be
observed. -/
def probesOfOperation (definition : Definition) (member : Member) : List ProbeMember :=
  let named := member.name.toList.map fun name =>
    ProbeMember.mk name (kindOfMember definition member) member.attributes
  let text := if member.special == some .stringifier then propertiesOf member ["toString"] else []
  named ++ text

/-- What an iterable declares. -/
def probesOfIterable (member : Member) : List ProbeMember :=
  if member.isAsync then
    let pair := if member.typeArgs.length == 2 then asyncPairMethods else []
    symbolOf member "@@asyncIterator" :: propertiesOf member ("values" :: pair)
  else symbolOf member "@@iterator" :: propertiesOf member iterableMethods

/-- What a collection declares. -/
def probesOfCollection (member : Member) (methods mutators : List String) : List ProbeMember :=
  symbolOf member "@@iterator" ::
    propertiesOf member (if member.readonly then methods else methods ++ mutators)

/-- What is probed for a member.  Constants and fields are not probed, and neither is the
constructor of an element that is only made through markup. -/
def probesOfMember (definition : Definition) (member : Member) : List ProbeMember :=
  match member.kind with
  | .attr => probesOfOperation definition member
  | .operation => probesOfOperation definition member
  | .constructor =>
      if member.hasAttribute "HTMLConstructor" then []
      else [⟨definition.name, .constructor, member.attributes⟩]
  | .iterable => probesOfIterable member
  | .maplike => probesOfCollection member maplikeMethods maplikeMutators
  | .setlike => probesOfCollection member setlikeMethods setlikeMutators
  | .const => []
  | .field => []

/-- The further constructor that an extended attribute names. -/
def factoryOf (definition : Definition) : List ProbeMember :=
  match (definition.attribute? "LegacyFactoryFunction").bind ExtendedAttribute.value with
  | some (.identifier name) => [⟨name, .constructor, []⟩]
  | _ => []

/-- What a definition declares. -/
def probesOf (definition : Definition) : List ProbeMember :=
  definition.members.flatMap (probesOfMember definition) ++ factoryOf definition

/-- Where the members of a definition are looked for: on the global object, on the definition, or
on its prototype. -/
def ownerOf (definition : Definition) (kind : ProbeKind) : String :=
  let isGlobal := definition.hasAttribute "Global"
  match kind with
  | .constructor => definition.name
  | .static => if isGlobal then "self" else definition.name
  | _ => if isGlobal then "self" else definition.name ++ ".prototype"

/-- The property under which a member is looked for. -/
def propertyOf (member : ProbeMember) : String :=
  match member.kind with
  | .constructor => "constructor." ++ member.name
  | .symbol => "Symbol." ++ String.ofList (Text.dropAtSigns member.name.toList)
  | _ => member.name

/-- The probe that a member has where the catalog says nothing about it. -/
def defaultCode (definition : Definition) (member : ProbeMember) : TestCode :=
  .member (.of (ownerOf definition member.kind) (propertyOf member))

/-- The scopes of a member: those of its owner that its extended attributes name, if they name
some. -/
def narrowExposure (owner member : String) (attributes : List ExtendedAttribute)
    (exposure valid : NameSet) : Except BuildError NameSet :=
  if (WebIdl.findAttribute attributes "Exposed").isNone then .ok exposure
  else do
    return exposure.inter
      (← WebIdl.exposedScopes "member" (owner ++ "." ++ member) attributes valid)

/-- The test at a path: that of the catalog if it has one, else the given one. -/
def entry (path : String) (code : TestCode) (custom : Override) (exposure : List String) :
    String × CompiledTest :=
  let code := (custom.test.map TestCode.raw).getD code
  (path, RawTest.compile ⟨code, custom.resources, exposure⟩)

/-- The test of a member, in those scopes of its definition that its own attributes leave. -/
def memberEntry (catalog : Catalog) (valid : NameSet) (definition : Definition)
    (exposure : NameSet) (member : ProbeMember) : Reporting (String × CompiledTest) := do
  let narrowed ← Reporting.ofExcept
    (narrowExposure definition.name member.name member.attributes exposure valid)
  let custom ← catalog.memberTest definition.name member.name member.kind
  return entry ("api." ++ definition.name ++ "." ++ member.name)
    (defaultCode definition member) custom narrowed.keys

/-- The tests that authors wrote below a definition. -/
def subtestEntries (catalog : Catalog) (definition : Definition) (exposure : NameSet) :
    Reporting (List (String × CompiledTest)) := do
  let known := NameSet.ofNames ((probesOf definition).map ProbeMember.name)
  let subtests ← catalog.subtests definition.name known
  return subtests.entries.filterMap fun (path, custom) =>
    custom.test.map fun code =>
      entry ("api." ++ definition.name ++ "." ++ path) (.raw code) custom exposure.keys

/-- The tests of a definition: its own one, those of its members, and those that the catalog has
below it. -/
def definitionEntries (catalog : Catalog) (valid : NameSet) (definition : Definition) :
    Reporting (List (String × CompiledTest)) := do
  let exposure ← Reporting.ofExcept (definition.exposure valid)
  let custom ← catalog.interfaceTest definition.name
  let own := entry ("api." ++ definition.name) (.member (.of "self" definition.name)) custom
    exposure.keys
  let members ← (probesOf definition).mapM (memberEntry catalog valid definition exposure)
  let subtests ← subtestEntries catalog definition exposure
  return own :: members ++ subtests

/-- The scopes of all global objects that a global member belongs to. -/
def targetExposure (merged : Merged) (valid : NameSet) (targets : List String) :
    Except BuildError NameSet := do
  let scopes ← (targets.filterMap merged.find?).mapM fun definition => definition.exposure valid
  return scopes.foldl SortedMap.union .empty

/-- The test of a member of the global object, which has the path of an interface.  Constants and
members without a name have none. -/
def globalEntry (catalog : Catalog) (valid : NameSet) (merged : Merged)
    (item : WebIdl.GlobalMember) : Reporting (List (String × CompiledTest)) := do
  match item.member.name with
  | none => return []
  | some name =>
      if item.member.kind == .const then return []
      let exposure ← Reporting.ofExcept (targetExposure merged valid item.targets)
      let narrowed ← Reporting.ofExcept
        (narrowExposure item.mixin name item.member.attributes exposure valid)
      let custom ← catalog.interfaceTest name
      return [entry ("api." ++ name) (.member (.of "self" name)) custom narrowed.keys]

/-- Whether a definition gets tests.  A definition in a namespace of its own is no global object's
property. -/
def isTested (definition : Definition) : Bool :=
  definition.kind.isProbed && !definition.hasAttribute "LegacyNamespace"

/-- The tests of what the merged fragments declare.  The definitions come first, so at a path of
both the code is theirs. -/
def apiTests (merged : Merged) (valid : NameSet) (catalog : Catalog) : Reporting Table := do
  let definitions ←
    (merged.definitions.filter isTested).mapM (definitionEntries catalog valid)
  let globals ← merged.globals.mapM (globalEntry catalog valid merged)
  return Table.ofTests (definitions.flatten ++ globals.flatten)

/-- Merge and check the definitions of fragments, and make their tests. -/
def apiTable (spec custom : WebIdl.Fragments) (valid : NameSet) (catalog : Catalog) :
    Reporting Table := do
  let merged ← Reporting.ofExcept (WebIdl.merge spec custom)
  Reporting.ofExcept merged.validate
  apiTests merged valid catalog

end Build
end FeatureProbes
