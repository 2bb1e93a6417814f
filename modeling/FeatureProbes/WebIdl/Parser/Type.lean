import FeatureProbes.WebIdl.Basic
import FeatureProbes.WebIdl.Parser.Basic

/-!
# Reading types, arguments and extended attributes

Types may begin with extended attributes, extended attributes have arguments, and arguments have
types.  Each construct is an ordinary parser that is given the parsers of what it contains, and
the recursion is closed in one place: `Nested.level n` reads what is nested at most `n` deep.
-/

namespace FeatureProbes
namespace WebIdl

/-- The parsers of the constructs that contain each other. -/
structure Nested where
  type : Parser IdlType
  attributes : Parser (List ExtendedAttribute)

namespace Parser

/-- Names that take parameters where a bracket follows. -/
def genericNames : List String :=
  ["sequence", "record", "Promise", "FrozenArray", "ObservableArray", "async_sequence"]

/-- A default value, which does not matter. -/
def defaultValue : Parser Unit := do
  if ← eatMark "[" then expectMark "]"
  else if ← eatMark "\x7b" then expectMark "\x7d"
  else if (← atName) || (← atKind .integer) || (← atKind .decimal) || (← atKind .string) then skip
  else unexpected .defaultValue

/-- The types between angle brackets. -/
def typeParameters (type : Parser IdlType) : Parser (List IdlType) := do
  expectMark "<"
  let args ← separated (eatMark ",") type
  expectMark ">"
  return args

/-- A type that begins with a name: one of several words, a generic one, or the name alone. -/
def namedType (type : Parser IdlType) : Parser IdlType := do
  let first ← identifier
  if first == "unsigned" then
    let rest ← identifier
    if rest == "long" then
      if ← eatWord "long" then return .named "unsigned long long"
    return .named ("unsigned " ++ rest)
  else if first == "unrestricted" then
    return .named ("unrestricted " ++ (← identifier))
  else if first == "long" then
    if ← eatWord "long" then return .named "long long" else return .named "long"
  else if genericNames.contains first then
    if ← atMark "<" then return .generic first (← typeParameters type)
    else return .named first
  else return .named first

/-- A type.  The extended attributes in front of it do not matter. -/
def type (nested : Nested) : Parser IdlType := do
  let _ ← nested.attributes
  let plain ←
    if ← eatMark "(" then do
      let types ← separated (eatWord "or") nested.type
      expectMark ")"
      pure (IdlType.union types)
    else namedType nested.type
  if ← eatMark "?" then return .nullable plain else return plain

/-- An argument.  Its extended attributes and its default value do not matter. -/
def argument (nested : Nested) : Parser Argument := do
  let _ ← nested.attributes
  let optional ← eatWord "optional"
  let type ← nested.type
  let variadic ← atKind .ellipsis
  if variadic then skip
  let name ← identifier
  if ← eatMark "=" then defaultValue
  return ⟨name, type, optional, variadic⟩

/-- Arguments in parentheses. -/
def arguments (nested : Nested) : Parser (List Argument) := do
  expectMark "("
  commaList ")" (argument nested)

/-- A name in the list of an extended attribute. -/
def listedName : Parser String := fun tokens =>
  match tokens with
  | [] => stop .invalidList tokens
  | token :: rest => if token.isName then .ok (token.text, rest) else stop .invalidList tokens

/-- A string in the list of an extended attribute. -/
def listedString : Parser String := fun tokens =>
  match tokens with
  | [] => stop .invalidList tokens
  | token :: rest =>
      if token.kind == .string then .ok (token.text, rest) else stop .invalidList tokens

/-- A list of names or a list of strings, after its opening parenthesis. -/
def valueList : Parser AttributeValue := do
  if ← atKind .string then return .stringList (← commaList ")" listedString)
  else return .identifierList (← commaList ")" listedName)

/-- The value of an extended attribute that is a single token. -/
def plainValue (name : String) : Parser AttributeValue := fun tokens =>
  match tokens with
  | [] => stop (.invalidValue name) tokens
  | token :: rest =>
      match token.kind with
      | .name _ => .ok (.identifier token.text, rest)
      | .integer => .ok (.integer token.text, rest)
      | .decimal => .ok (.decimal token.text, rest)
      | .string => .ok (.string token.text, rest)
      | _ => stop (.invalidValue name) tokens

/-- The right-hand side of an extended attribute. -/
def attributeValue (name : String) : Parser AttributeValue := do
  if ← eatMark "*" then return .wildcard
  else if ← eatMark "(" then valueList
  else plainValue name

/-- An extended attribute: its name, a value behind an equals sign, and arguments. -/
def extendedAttribute (nested : Nested) : Parser ExtendedAttribute := do
  let name ← identifier
  let value ← if ← eatMark "=" then some <$> attributeValue name else pure none
  let arguments ← if ← atMark "(" then arguments nested else pure []
  return ⟨name, value, arguments⟩

/-- Extended attributes in brackets, if there are some. -/
def attributes (nested : Nested) : Parser (List ExtendedAttribute) := do
  if ← eatMark "[" then
    let list ← separated (eatMark ",") (extendedAttribute nested)
    expectMark "]"
    return list
  else return []

end Parser

namespace Nested

/-- The parsers of constructs one level further out. -/
def outer (nested : Nested) : Nested :=
  let attributes := Parser.attributes nested
  ⟨Parser.type ⟨nested.type, attributes⟩, attributes⟩

/-- The parsers of constructs that are nested at most as deep as given. -/
def level : Nat → Nested
  | 0 => ⟨Parser.stop .tooDeep, Parser.stop .tooDeep⟩
  | depth + 1 => outer (level depth)

end Nested
end WebIdl
end FeatureProbes
