import FeatureProbes.BuildError
import FeatureProbes.Catalog.Basic
import FeatureProbes.Json.Decode
import FeatureProbes.Text.Affix

/-!
# Reading catalogs

A catalog is written as a document: its members are the categories, but for one that holds the
table of resources.  A node is written as a string, which is its test, as `false`, or as a mapping;
keys that begin with two low lines belong to the node, every other key is a node below it.

Resources are looked at first, then the categories in the order of their names.
-/

namespace FeatureProbes
namespace Catalog

open Json (Value)

mutual

/-- Whether a value consists of truth values, strings, lists and mappings. -/
def isReadable : Value → Bool
  | .bool _ => true
  | .string _ => true
  | .array items => areReadable items
  | .object members => areReadableMembers members
  | _ => false

def areReadable : List Value → Bool
  | [] => true
  | item :: more => isReadable item && areReadable more

def areReadableMembers : List (String × Value) → Bool
  | [] => true
  | (_, value) :: more => isReadable value && areReadableMembers more

end

/-- Code, or `false` for none. -/
def readCode (key : String) : Value → Except NodeProblem (Option String)
  | .string code => .ok (some code)
  | .bool false => .ok none
  | _ => .error (.notCode key)

/-- The names below a key, of which a single one may stand without a list. -/
def readNames (key : String) : Value → Except NodeProblem (List String)
  | .string name => .ok [name]
  | .array items =>
      match items.mapM Value.string? with
      | some names => .ok names
      | none => .error (.notListOfStrings key)
  | _ => .error (.notList key)

/-- Further tests by their names. -/
def readAdditional : Value → Except NodeProblem (SortedMap String)
  | .object members => do
      let entries ← members.mapM fun (name, value) =>
        match value with
        | .string code => .ok (name, code)
        | _ => .error (NodeProblem.extraNotCode name)
      return .ofList entries
  | _ => .error .extraNotMapping

/-- Whether a key belongs to the node itself. -/
def isOwnKey (key : String) : Bool :=
  (Text.dropStart? "__" key).isSome

/-- A node with one more of its own members. -/
def Node.withOwn (node : Node) (key : String) (value : Value) : Except NodeProblem Node :=
  if key = "__base" then do
    return { node with base := ← readCode key value }
  else if key = "__test" then do
    let test ← readCode key value
    return { node with test := test, useDefault := test.isNone }
  else if key = "__resources" then do
    return { node with resources := ← readNames key value }
  else if key = "__additional" then do
    return { node with additional := ← readAdditional value }
  else .error (.unknownKey key)

/-- A node with one more node below it. -/
def Node.withChild (node : Node) (key : String) (child : Node) : Node :=
  { node with children := node.children ++ [(key, child)] }

mutual

/-- The node that a value stands for: a test alone, a wish for the default, or keys and children. -/
def Node.ofValue : Value → Except NodeProblem Node
  | .string test => .ok { Node.empty with test := some test }
  | .bool false => .ok { Node.empty with useDefault := true }
  | .object members => Node.addMembers Node.empty members
  | _ => .error .notNode

/-- A node with further keys and children, up to the first fault. -/
def Node.addMembers (node : Node) : List (String × Value) → Except NodeProblem Node
  | [] => .ok node
  | (key, value) :: more => do
      if isOwnKey key then
        let node ← node.withOwn key value
        Node.addMembers node more
      else
        match Node.ofValue value with
        | .ok child => Node.addMembers (node.withChild key child) more
        | .error problem => .error (.child key problem)

end

/-- The node of a category, whose values all have to be readable before any of them is looked at. -/
def readCategory (value : Value) : Except Problem Node :=
  if isReadable value then
    match Node.ofValue value with
    | .ok node => .ok node
    | .error problem => .error (.node problem)
  else .error .unreadable

/-- The catalog that the members of a document stand for, in the order of their names. -/
def ofMembers (members : List (String × Value)) : Except Problem Catalog := do
  let resources ←
    match members.find? fun member => member.1 = "__resources" with
    | some (_, value) => Resources.ofValue value
    | none => pure .empty
  let categories := members.filter fun member => member.1 ≠ "__resources"
  let children ← categories.mapM fun (name, value) => do return (name, ← readCategory value)
  return ⟨{ Node.empty with children := children }, resources⟩

/-- The catalog that a document stands for.  Of members with the same name the last one counts. -/
def ofDocument (document : Value) : Except BuildError Catalog :=
  let read :=
    match document.normalize with
    | .object members => ofMembers members
    | value => wrongType value "struct CatalogRepr"
  match read with
  | .ok catalog => .ok catalog
  | .error problem => .error (.invalidCatalog problem)

end Catalog
end FeatureProbes
