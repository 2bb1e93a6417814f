import FeatureProbes.Catalog.Problem
import FeatureProbes.Json.Encode
import FeatureProbes.Text.Shown

/-!
# Resources

What a custom test needs to be at hand: a medium that is loaded from one of some places, or an
object that a script makes.
-/

namespace FeatureProbes
namespace Catalog

open Json (Value)

/-- The kinds of media. -/
inductive Medium where
  | audio
  | video
  | image
  deriving Repr, DecidableEq

/-- The name of a kind of media. -/
def Medium.tag : Medium → String
  | audio => "audio"
  | video => "video"
  | image => "image"

/-- A resource. -/
inductive Resource where
  /-- A medium and the places it can be loaded from. -/
  | medium (kind : Medium) (places : List String)
  /-- An object and the script that makes it. -/
  | object (script : String)
  deriving Repr, DecidableEq

/-- The kinds of resources. -/
inductive ResourceKind where
  | medium (kind : Medium)
  | object
  deriving Repr, DecidableEq

/-- What messages call a value of a document. -/
def describeValue : Value → String
  | .null => "null"
  | .bool true => "boolean \x60true\x60"
  | .bool false => "boolean \x60false\x60"
  | .integer n => "integer \x60" ++ toString n ++ "\x60"
  | .decimal spelling => "floating point \x60" ++ spelling ++ "\x60"
  | .string s => "string " ++ Text.shown s
  | .array _ => "sequence"
  | .object _ => "map"

/-- The fault of a value that is not of the expected type. -/
def wrongType {α : Type} (value : Value) (expected : String) : Except Problem α :=
  .error (.wrongType (describeValue value) expected)

/-- The text of a string. -/
def readString : Value → Except Problem String
  | .string s => .ok s
  | value => wrongType value "a string"

/-- The strings of a list. -/
def readStrings : Value → Except Problem (List String)
  | .array items => items.mapM readString
  | value => wrongType value "a sequence"

namespace ResourceKind

/-- The kind of resource that a tag names. -/
def ofTag? : String → Option ResourceKind
  | "audio" => some (medium .audio)
  | "video" => some (medium .video)
  | "image" => some (medium .image)
  | "instance" => some object
  | _ => none

/-- The kind of resource that a value names. -/
def ofValue : Value → Except Problem ResourceKind
  | .string name =>
      match ofTag? name with
      | some kind => .ok kind
      | none => .error (.unknownVariant name)
  | value => wrongType value "variant identifier"

/-- What messages call a resource of this kind that is written as a list. -/
def describe : ResourceKind → String
  | medium .audio => "struct variant Resource::Audio with 1 element"
  | medium .video => "struct variant Resource::Video with 1 element"
  | medium .image => "struct variant Resource::Image with 1 element"
  | object => "struct variant Resource::Instance with 1 element"

/-- A resource of this kind with its places or its script. -/
def read (kind : ResourceKind) (value : Value) : Except Problem Resource :=
  match kind with
  | medium kind => .medium kind <$> readStrings value
  | object => .object <$> readString value

end ResourceKind

namespace Resource

/-- The resource that a list stands for: its kind, and its places or its script. -/
def ofItems : List Value → Except Problem Resource
  | [] => .error (.missingField "type")
  | kind :: items => do
      let kind ← ResourceKind.ofValue kind
      match items with
      | [] => .error (.wrongLength 0 kind.describe)
      | value :: more =>
          let resource ← kind.read value
          if more.isEmpty then .ok resource
          else .error (.wrongLength (more.length + 1) "1 element in sequence")

/-- The resource that a record stands for. -/
def ofMembers (value : Value) : Except Problem Resource :=
  match value.member? "type" with
  | none => .error (.missingField "type")
  | some kind => do
      let kind ← ResourceKind.ofValue kind
      match value.member? "src" with
      | none => .error (.missingField "src")
      | some value => kind.read value

/-- The resource that a value stands for, which may list the fields in their order. -/
def ofValue (value : Value) : Except Problem Resource :=
  match value with
  | .array items => ofItems items
  | .object _ => ofMembers value
  | _ => wrongType value "internally tagged enum Resource"

/-- The resource that a value stands for, whatever the problem is if it stands for none. -/
def ofValue? (value : Value) : Option Resource :=
  (ofValue value).toOption

/-- A resource as data. -/
def toValue : Resource → Value
  | medium kind places => .object [("type", .string kind.tag), ("src", .ofStrings places)]
  | object script => .object [("type", .string "instance"), ("src", .string script)]

end Resource

/-- Resources by their names. -/
abbrev Resources := SortedMap Resource

/-- Resources by their names.  Of two with one name the later one counts. -/
def Resources.ofValue (value : Value) : Except Problem Resources :=
  match value with
  | .object members => do
      let entries ← members.mapM fun (name, value) => do return (name, ← Resource.ofValue value)
      return .ofList entries
  | _ => wrongType value "a map"

end Catalog
end FeatureProbes
