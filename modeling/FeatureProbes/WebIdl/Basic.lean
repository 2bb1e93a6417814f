/-!
# Interface definitions

The definitions that interface descriptions consist of: interfaces, mixins, namespaces,
dictionaries, enumerations, type names and callbacks, with their members, types and extended
attributes.
-/

namespace FeatureProbes
namespace WebIdl

/-- The kinds of definitions. -/
inductive DefinitionKind where
  | interface
  | mixin
  | nameSpace
  | dictionary
  | enumeration
  | typedef
  | callback
  | callbackInterface
  | includes
  deriving Repr, DecidableEq

namespace DefinitionKind

/-- What messages call a kind of definition. -/
def describe : DefinitionKind → String
  | interface => "interface"
  | mixin => "interface mixin"
  | nameSpace => "namespace"
  | dictionary => "dictionary"
  | enumeration => "enum"
  | typedef => "typedef"
  | callback => "callback"
  | callbackInterface => "callback interface"
  | includes => "includes"

/-- Interfaces and namespaces are the kinds that are probed. -/
def isProbed : DefinitionKind → Bool
  | interface => true
  | nameSpace => true
  | _ => false

end DefinitionKind

/-- A type. -/
inductive IdlType where
  /-- A type by its name, which may be of several words. -/
  | named (name : String)
  /-- A type with parameters. -/
  | generic (name : String) (args : List IdlType)
  /-- One of several types. -/
  | union (types : List IdlType)
  /-- A type with the null value in addition. -/
  | nullable (inner : IdlType)
  deriving Repr

namespace IdlType

mutual

/-- The names that occur in a type, in the order of the text. -/
def names : IdlType → List String
  | named name => [name]
  | generic _ args => namesOfList args
  | union types => namesOfList types
  | nullable inner => names inner

def namesOfList : List IdlType → List String
  | [] => []
  | type :: more => names type ++ namesOfList more

end

end IdlType

/-- An argument of an operation, a constructor, a callback or an extended attribute. -/
structure Argument where
  name : String
  type : IdlType
  optional : Bool
  variadic : Bool
  deriving Repr

/-- The right-hand side of an extended attribute. -/
inductive AttributeValue where
  | identifier (name : String)
  | identifierList (names : List String)
  | wildcard
  | integer (spelling : String)
  | decimal (spelling : String)
  | string (value : String)
  | stringList (values : List String)
  deriving Repr, DecidableEq

/-- What messages call a kind of right-hand side. -/
def AttributeValue.describe : AttributeValue → String
  | identifier _ => "identifier"
  | identifierList _ => "identifier-list"
  | wildcard => "*"
  | integer _ => "integer"
  | decimal _ => "decimal"
  | string _ => "string"
  | stringList _ => "string-list"

/-- An extended attribute. -/
structure ExtendedAttribute where
  name : String
  value : Option AttributeValue
  arguments : List Argument
  deriving Repr

/-- The first extended attribute of a name. -/
def findAttribute (attributes : List ExtendedAttribute) (name : String) :
    Option ExtendedAttribute :=
  attributes.find? fun item => item.name == name

/-- The kinds of members. -/
inductive MemberKind where
  | attr
  | operation
  | constructor
  | const
  | iterable
  | maplike
  | setlike
  /-- A member of a dictionary. -/
  | field
  deriving Repr, DecidableEq

/-- A mark in front of an attribute or operation. -/
inductive Special where
  | static
  | stringifier
  | getter
  | setter
  | deleter
  deriving Repr, DecidableEq

/-- A member of a definition. -/
structure Member where
  kind : MemberKind
  name : Option String
  special : Option Special
  readonly : Bool
  isAsync : Bool
  /-- The type of an attribute, constant or field, or what an operation returns. -/
  type : Option IdlType
  arguments : List Argument
  /-- The parameters of an iterable, maplike or setlike declaration. -/
  typeArgs : List IdlType
  attributes : List ExtendedAttribute
  line : UInt32
  deriving Repr

namespace Member

/-- A member of a kind that says nothing else. -/
def ofKind (kind : MemberKind) (name : Option String) : Member :=
  ⟨kind, name, none, false, false, none, [], [], [], 0⟩

/-- The member has an extended attribute of a name. -/
def hasAttribute (member : Member) (name : String) : Bool :=
  (findAttribute member.attributes name).isSome

/-- The types that the member mentions, those of its arguments included. -/
def types (member : Member) : List IdlType :=
  member.type.toList ++ member.typeArgs ++ member.arguments.map Argument.type

end Member

/-- A definition. -/
structure Definition where
  kind : DefinitionKind
  /-- The name; for an includes statement, the name of the target. -/
  name : String
  isPartial : Bool
  inheritance : Option String
  members : List Member
  attributes : List ExtendedAttribute
  /-- The mixin of an includes statement. -/
  included : Option String
  /-- The type that a typedef names, or what a callback returns. -/
  type : Option IdlType
  arguments : List Argument
  /-- The values of an enumeration. -/
  values : List String
  line : UInt32
  deriving Repr

namespace Definition

/-- A definition of a kind that says nothing else but its name. -/
def ofKind (kind : DefinitionKind) (name : String) : Definition :=
  ⟨kind, name, false, none, [], [], none, none, [], [], 0⟩

/-- The extended attribute of a name that a definition has, the first one if there are several. -/
def attribute? (definition : Definition) (name : String) : Option ExtendedAttribute :=
  findAttribute definition.attributes name

/-- The definition has an extended attribute of a name. -/
def hasAttribute (definition : Definition) (name : String) : Bool :=
  (definition.attribute? name).isSome

end Definition
end WebIdl
end FeatureProbes
