import FeatureProbes.WebIdl.Merge

/-!
# Validation

Merged definitions are coherent when every interface and namespace says where it is exposed, and
every name that stands for a type is known: it is the name of a definition or of a type that needs
no definition.
-/

namespace FeatureProbes
namespace WebIdl

/-- The types of the definition language itself. -/
def builtinTypes : List String :=
  ["any", "undefined", "boolean", "byte", "octet", "short", "unsigned short", "long",
    "unsigned long", "long long", "unsigned long long", "float", "unrestricted float", "double",
    "unrestricted double", "bigint", "DOMString", "ByteString", "USVString", "object", "symbol",
    "ArrayBuffer", "SharedArrayBuffer", "DataView", "Int8Array", "Int16Array", "Int32Array",
    "Uint8Array", "Uint16Array", "Uint32Array", "Uint8ClampedArray", "BigInt64Array",
    "BigUint64Array", "Float16Array", "Float32Array", "Float64Array"]

/-- Types that are used without a definition of their own. -/
def looseTypes : List String :=
  ["CSSOMString", "ArrayBufferView", "BufferSource", "AllowSharedBufferSource", "DOMTimeStamp",
    "DOMHighResTimeStamp", "EpochTimeStamp", "Function", "VoidFunction", "WindowProxy"]

/-- The names that the types of a member use. -/
def Member.typeNames (member : Member) : List String :=
  member.types.flatMap IdlType.names

/-- The names that the types of a definition and of its members use, and what it inherits from. -/
def Definition.typeNames (definition : Definition) : List String :=
  let own :=
    definition.type.toList ++ definition.arguments.map Argument.type ++
      definition.attributes.flatMap fun item => item.arguments.map Argument.type
  definition.inheritance.toList ++ own.flatMap IdlType.names ++
    definition.members.flatMap Member.typeNames

namespace Merged

/-- The names that the types of all merged definitions and global members use. -/
def typeNames (merged : Merged) : List String :=
  merged.definitions.flatMap Definition.typeNames ++
    merged.globals.flatMap fun item => item.member.typeNames

/-- The names of types that may be used. -/
def knownTypes (merged : Merged) : List String :=
  merged.definitions.map Definition.name ++ builtinTypes ++ looseTypes

/-- Whether a definition is probed but does not say where it is exposed. -/
def lacksExposure (definition : Definition) : Bool :=
  definition.kind.isProbed && !definition.hasAttribute "Exposed"

/-- Check merged definitions; of all faults a missing exposure comes first. -/
def validate (merged : Merged) : Except BuildError Unit :=
  match merged.definitions.find? lacksExposure with
  | some definition =>
      .error (.missingExposed definition.kind definition.name definition.line)
  | none =>
      match merged.typeNames.find? fun name => !merged.knownTypes.contains name with
      | some name => .error (.unknownType name)
      | none => .ok ()

end Merged
end WebIdl
end FeatureProbes
