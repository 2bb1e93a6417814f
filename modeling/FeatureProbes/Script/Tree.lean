/-!
# Trees of scripts

The tree of a script.  Its leaves are the places where a variable is used or bound and the other
words of the text; a node has a form and its parts in the order of the text.  One form serves for
every construct, so what holds of all identifiers of a script is said by one recursion.
-/

namespace FeatureProbes
namespace Script

/-- An identifier: its name after decoding escapes, and the offsets of its spelling. -/
structure Ident where
  name : String
  start : Nat
  stop : Nat
  deriving Repr, DecidableEq

/-- The constructs of scripts. -/
inductive Form where
  | program
  | block
  | empty
  | expressionStatement
  | variables (kind : String)
  | declarator
  | ifStatement
  | loop (kind : String)
  | jump (kind : String)
  | withStatement
  | switchStatement
  | switchClause
  | tryStatement
  | catchClause
  | labeled
  | functionLike (isAsync generator : Bool)
  | arrow (isAsync : Bool)
  | parameters
  | body
  | classLike
  | classMember
  | staticBlock
  | decorator
  | importDeclaration
  | importItem
  | exportDeclaration
  | exportItem
  | attributes
  | sequence
  | parenthesized
  | assignment (operator : String)
  | conditional
  | logical (operator : String)
  | binary (operator : String)
  | unary (operator : String)
  | update (operator : String)
  | await
  | yield
  | privateIn
  | member
  | computedMember
  | call
  | new
  | importCall
  | metaProperty
  | chain
  | tagged
  | template
  | array
  | hole
  | object
  | property
  | accessor
  | computedKey
  | method
  /-- A property of an object whose name is also its value. -/
  | shorthand
  /-- A property name with a default, which only a pattern may have. -/
  | shorthandDefault (start : Nat)
  | spread
  /-- A comma after the last element of an array or an object. -/
  | trailingComma
  | arrayPattern
  | objectPattern
  | bindingProperty
  /-- A property of a binding pattern that is bound to its own name. -/
  | bindingShorthand
  | withDefault
  | rest
  | arrayTarget
  | objectTarget
  | targetProperty
  /-- A property of an assignment pattern that is assigned to its own name. -/
  | targetShorthand
  deriving Repr, DecidableEq

/-- The tree of a script or of a part of it. -/
inductive Tree where
  /-- A variable is read or written. -/
  | reference (id : Ident)
  /-- A variable is declared. -/
  | binding (id : Ident)
  /-- A word that is no variable: a literal, a property name, a label. -/
  | leaf (text : String)
  | node (form : Form) (parts : List Tree)
  deriving Repr

namespace Tree

/-- The form of a node. -/
def form? : Tree → Option Form
  | node form _ => some form
  | _ => none

/-- The parts of a node. -/
def parts : Tree → List Tree
  | node _ parts => parts
  | _ => []

/-- The identifier of a tree that is just a use of a variable. -/
def reference? : Tree → Option Ident
  | reference id => some id
  | _ => none

/-- The identifier of a tree that is just a declared variable. -/
def binding? : Tree → Option Ident
  | binding id => some id
  | _ => none

mutual

/-- The identifiers that are used, in the order of the text. -/
def references : Tree → List Ident
  | reference id => [id]
  | binding _ => []
  | leaf _ => []
  | node _ parts => referencesOfParts parts

def referencesOfParts : List Tree → List Ident
  | [] => []
  | tree :: more => references tree ++ referencesOfParts more

end

mutual

/-- The identifiers that are declared, in the order of the text. -/
def bindings : Tree → List Ident
  | reference _ => []
  | binding id => [id]
  | leaf _ => []
  | node _ parts => bindingsOfParts parts

def bindingsOfParts : List Tree → List Ident
  | [] => []
  | tree :: more => bindings tree ++ bindingsOfParts more

end

end Tree
end Script
end FeatureProbes
