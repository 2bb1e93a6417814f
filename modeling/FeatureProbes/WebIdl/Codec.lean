import FeatureProbes.Json.Decode
import FeatureProbes.Json.Encode
import FeatureProbes.WebIdl.Merge

/-!
# Definitions as data

Definitions are written as records of data documents and read back.  Every field is written; in a
text that is read the fields with a default may be left out.
-/

namespace FeatureProbes
namespace WebIdl

open Json (Value Record)

/-- The name of a kind of definitions in a document. -/
def DefinitionKind.tag : DefinitionKind → String
  | interface => "interface"
  | mixin => "interface-mixin"
  | nameSpace => "namespace"
  | dictionary => "dictionary"
  | enumeration => "enum"
  | typedef => "typedef"
  | callback => "callback-function"
  | callbackInterface => "callback-interface"
  | includes => "includes"

/-- The kind of definition that a tag names. -/
def DefinitionKind.ofTag? : String → Option DefinitionKind
  | "interface" => some interface
  | "interface-mixin" => some mixin
  | "namespace" => some nameSpace
  | "dictionary" => some dictionary
  | "enum" => some enumeration
  | "typedef" => some typedef
  | "callback-function" => some callback
  | "callback-interface" => some callbackInterface
  | "includes" => some includes
  | _ => none

/-- Reading the name of a kind gives the kind. -/
theorem DefinitionKind.ofTag?_tag
    (kind : DefinitionKind) :
    ofTag? kind.tag = some kind := by
  cases kind <;> rfl

/-- The name of a kind of members in a document. -/
def MemberKind.tag : MemberKind → String
  | attr => "attribute"
  | operation => "operation"
  | constructor => "constructor"
  | const => "const"
  | iterable => "iterable"
  | maplike => "maplike"
  | setlike => "setlike"
  | field => "field"

/-- The kind of member that a tag names. -/
def MemberKind.ofTag? : String → Option MemberKind
  | "attribute" => some attr
  | "operation" => some operation
  | "constructor" => some constructor
  | "const" => some const
  | "iterable" => some iterable
  | "maplike" => some maplike
  | "setlike" => some setlike
  | "field" => some field
  | _ => none

/-- Reading the name of a kind gives the kind. -/
theorem MemberKind.ofTag?_tag
    (kind : MemberKind) :
    ofTag? kind.tag = some kind := by
  cases kind <;> rfl

/-- The name of a mark in a document. -/
def Special.tag : Special → String
  | static => "static"
  | stringifier => "stringifier"
  | getter => "getter"
  | setter => "setter"
  | deleter => "deleter"

/-- The mark with this name. -/
def Special.ofTag? : String → Option Special
  | "static" => some static
  | "stringifier" => some stringifier
  | "getter" => some getter
  | "setter" => some setter
  | "deleter" => some deleter
  | _ => none

/-- Reading the name of a mark gives the mark. -/
theorem Special.ofTag?_tag
    (special : Special) :
    ofTag? special.tag = some special := by
  cases special <;> rfl

namespace IdlType

mutual

/-- A type as data. -/
def toValue : IdlType → Value
  | named name => .choice "named" (.string name)
  | generic name args =>
      .choice "generic" (.object [("name", .string name), ("args", .array (toValues args))])
  | union types => .choice "union" (.array (toValues types))
  | nullable inner => .choice "nullable" (toValue inner)

/-- Types as data. -/
def toValues : List IdlType → List Value
  | [] => []
  | type :: more => toValue type :: toValues more

end

/-- The type that a value stands for, within a number of levels. -/
def ofValueWithin? : Nat → Value → Option IdlType
  | 0, _ => none
  | levels + 1, value => do
      match ← value.choice? with
      | ("named", some value) => named <$> value.string?
      | ("generic", some value) =>
          let record ← Record.ofValue? ["name", "args"] value
          let name ← record.required? "name" Value.string?
          let args ← record.required? "args" (Value.list? (ofValueWithin? levels))
          return generic name args
      | ("union", some value) => union <$> value.list? (ofValueWithin? levels)
      | ("nullable", some value) => nullable <$> ofValueWithin? levels value
      | _ => none

/-- The type that a value stands for.  A value has more levels than the type. -/
def ofValue? (value : Value) : Option IdlType :=
  ofValueWithin? (value.depth + 1) value

end IdlType

namespace Argument

/-- An argument as data. -/
def toValue (argument : Argument) : Value :=
  .object
    [("name", .string argument.name), ("idlType", argument.type.toValue),
      ("optional", .bool argument.optional), ("variadic", .bool argument.variadic)]

def ofValue? (value : Value) : Option Argument := do
  let record ← Record.ofValue? ["name", "idlType", "optional", "variadic"] value
  let name ← record.required? "name" Value.string?
  let type ← record.required? "idlType" IdlType.ofValue?
  let optional ← record.optional? "optional" Value.bool? false
  let variadic ← record.optional? "variadic" Value.bool? false
  return ⟨name, type, optional, variadic⟩

end Argument

namespace AttributeValue

/-- The right-hand side of an extended attribute as data. -/
def toValue : AttributeValue → Value
  | identifier name => .choice "identifier" (.string name)
  | identifierList names => .choice "identifier-list" (.ofStrings names)
  | wildcard => .string "wildcard"
  | integer spelling => .choice "integer" (.string spelling)
  | decimal spelling => .choice "decimal" (.string spelling)
  | string value => .choice "string" (.string value)
  | stringList values => .choice "string-list" (.ofStrings values)

/-- The right-hand side of an extended attribute that a value stands for. -/
def ofValue? (value : Value) : Option AttributeValue := do
  match ← value.choice? with
  | ("identifier", some value) => identifier <$> value.string?
  | ("identifier-list", some value) => identifierList <$> value.strings?
  | ("wildcard", none) => some wildcard
  | ("wildcard", some .null) => some wildcard
  | ("integer", some value) => integer <$> value.string?
  | ("decimal", some value) => decimal <$> value.string?
  | ("string", some value) => string <$> value.string?
  | ("string-list", some value) => stringList <$> value.strings?
  | _ => none

/-- A right-hand side is read as it was written. -/
theorem ofValue?_toValue
    (value : AttributeValue) :
    ofValue? value.toValue = some value := by
  have hstrings (names : List String) : (Value.ofStrings names).strings? = some names := by
    have hmap : (names.map Value.string).mapM Value.string? = some names := by
      induction names with
      | nil =>
          rfl
      | cons name more ih =>
          simp [List.mapM_cons, Value.string?, ih]
    exact hmap
  cases value <;> simp [toValue, ofValue?, Value.choice, Value.choice?, Value.string?, hstrings]

end AttributeValue

namespace ExtendedAttribute

def toValue (item : ExtendedAttribute) : Value :=
  .object
    [("name", .string item.name), ("rhs", .ofOption AttributeValue.toValue item.value),
      ("arguments", .ofList Argument.toValue item.arguments)]

def ofValue? (value : Value) : Option ExtendedAttribute := do
  let record ← Record.ofValue? ["name", "rhs", "arguments"] value
  let name ← record.required? "name" Value.string?
  let value ← record.nullable? "rhs" AttributeValue.ofValue?
  let arguments ← record.optional? "arguments" (Value.list? Argument.ofValue?) []
  return ⟨name, value, arguments⟩

end ExtendedAttribute

namespace Member

/-- The fields of a member. -/
def fieldNames : List String :=
  ["kind", "name", "special", "readonly", "async", "idlType", "arguments", "typeArgs",
    "extAttrs", "line"]

/-- A member as data. -/
def toValue (member : Member) : Value :=
  .object
    [("kind", .string member.kind.tag), ("name", .ofString? member.name),
      ("special", .ofOption (fun special => .string (Special.tag special)) member.special),
      ("readonly", .bool member.readonly), ("async", .bool member.isAsync),
      ("idlType", .ofOption IdlType.toValue member.type),
      ("arguments", .ofList Argument.toValue member.arguments),
      ("typeArgs", .ofList IdlType.toValue member.typeArgs),
      ("extAttrs", .ofList ExtendedAttribute.toValue member.attributes),
      ("line", .ofUInt32 member.line)]

def ofValue? (value : Value) : Option Member := do
  let record ← Record.ofValue? fieldNames value
  let kind ← record.required? "kind" fun value => value.plainChoice?.bind MemberKind.ofTag?
  let name ← record.nullable? "name" Value.string?
  let special ← record.nullable? "special" fun value => value.plainChoice?.bind Special.ofTag?
  let readonly ← record.optional? "readonly" Value.bool? false
  let isAsync ← record.optional? "async" Value.bool? false
  let type ← record.nullable? "idlType" IdlType.ofValue?
  let arguments ← record.optional? "arguments" (Value.list? Argument.ofValue?) []
  let typeArgs ← record.optional? "typeArgs" (Value.list? IdlType.ofValue?) []
  let attributes ← record.optional? "extAttrs" (Value.list? ExtendedAttribute.ofValue?) []
  let line ← record.optional? "line" Value.uint32? 0
  return ⟨kind, name, special, readonly, isAsync, type, arguments, typeArgs, attributes, line⟩

end Member

namespace Definition

/-- The fields of a definition. -/
def fieldNames : List String :=
  ["kind", "name", "partial", "inheritance", "members", "extAttrs", "includes", "idlType",
    "arguments", "values", "line"]

/-- A definition as data. -/
def toValue (definition : Definition) : Value :=
  .object
    [("kind", .string definition.kind.tag), ("name", .string definition.name),
      ("partial", .bool definition.isPartial),
      ("inheritance", .ofString? definition.inheritance),
      ("members", .ofList Member.toValue definition.members),
      ("extAttrs", .ofList ExtendedAttribute.toValue definition.attributes),
      ("includes", .ofString? definition.included),
      ("idlType", .ofOption IdlType.toValue definition.type),
      ("arguments", .ofList Argument.toValue definition.arguments),
      ("values", .ofStrings definition.values), ("line", .ofUInt32 definition.line)]

def ofValue? (value : Value) : Option Definition := do
  let record ← Record.ofValue? fieldNames value
  let kind ← record.required? "kind" fun value => value.plainChoice?.bind DefinitionKind.ofTag?
  let name ← record.required? "name" Value.string?
  let isPartial ← record.optional? "partial" Value.bool? false
  let inheritance ← record.nullable? "inheritance" Value.string?
  let members ← record.optional? "members" (Value.list? Member.ofValue?) []
  let attributes ← record.optional? "extAttrs" (Value.list? ExtendedAttribute.ofValue?) []
  let included ← record.nullable? "includes" Value.string?
  let type ← record.nullable? "idlType" IdlType.ofValue?
  let arguments ← record.optional? "arguments" (Value.list? Argument.ofValue?) []
  let values ← record.optional? "values" Value.strings? []
  let line ← record.optional? "line" Value.uint32? 0
  return ⟨kind, name, isPartial, inheritance, members, attributes, included, type, arguments,
    values, line⟩

end Definition

namespace GlobalMember

def toValue (item : GlobalMember) : Value :=
  .object
    [("member", item.member.toValue), ("mixin", .string item.mixin),
      ("targets", .ofStrings item.targets)]

def ofValue? (value : Value) : Option GlobalMember := do
  let record ← Record.ofValue? ["member", "mixin", "targets"] value
  let member ← record.required? "member" Member.ofValue?
  let mixin ← record.required? "mixin" Value.string?
  let targets ← record.required? "targets" Value.strings?
  return ⟨member, mixin, targets⟩

end GlobalMember

namespace Merged

/-- Merged definitions as data. -/
def toValue (merged : Merged) : Value :=
  .object
    [("ast", .ofList Definition.toValue merged.definitions),
      ("globals", .ofList GlobalMember.toValue merged.globals)]

/-- The merged definitions that a value stands for. -/
def ofValue? (value : Value) : Option Merged := do
  let record ← Record.ofValue? ["ast", "globals"] value
  let definitions ← record.required? "ast" (Value.list? Definition.ofValue?)
  let globals ← record.required? "globals" (Value.list? GlobalMember.ofValue?)
  return ⟨definitions, globals⟩

end Merged
end WebIdl
end FeatureProbes
