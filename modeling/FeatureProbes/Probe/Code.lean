import FeatureProbes.Text.Affix
import FeatureProbes.Text.Segments

/-!
# Probe code

A probe is one expression that is true where a feature is there: code as it was written, a look at
a property of an object, or several probes that must all hold or of which one must hold.

The object is given by its dotted name.  Before a property of it is looked at, every segment of the
name is looked up in the object before it, so a missing object makes the probe false and not fail.
-/

namespace FeatureProbes
namespace Probe

/-- A property of an object. -/
structure MemberRef where
  /-- The dotted name of the object. -/
  owner : String
  property : String
  /-- Whether the object itself must have the property. -/
  isOwn : Bool
  /-- Whether the property is a well-known symbol although its name does not say so. -/
  isSymbol : Bool
  deriving Repr, DecidableEq

/-- A property that an object has or inherits. -/
def MemberRef.of (owner property : String) : MemberRef := ⟨owner, property, false, false⟩

/-- A property that an object itself has. -/
def MemberRef.own (owner property : String) : MemberRef := ⟨owner, property, true, false⟩

/-- How several probes are combined. -/
inductive Combinator where
  /-- All of them hold. -/
  | all
  /-- One of them holds. -/
  | any
  deriving Repr, DecidableEq

/-- The operator between combined probes. -/
def Combinator.operator : Combinator → String
  | all => "&&"
  | any => "||"

/-- What a probe looks at. -/
inductive TestCode where
  | raw (code : String)
  | member (ref : MemberRef)
  | combined (items : List TestCode) (combinator : Combinator)
  deriving Repr

/-- A name between double quotes. -/
def inQuotes (name : String) : String := "\"" ++ name ++ "\""

/-- The check that an object has or inherits a property. -/
def has (property owner : String) : String := inQuotes property ++ " in " ++ owner

/-- Conditions that must all hold. -/
def allOf (conditions : List String) : String := " && ".intercalate conditions

/-- The checks of all segments, each in the object that the segments before it name. -/
def guardParts (segments : List String) : List String :=
  segments.zipIdx.map fun (segment, index) =>
    has segment (if index = 0 then "self" else Text.joinSegments (segments.take index))

/-- The check that an object is there. -/
def ownerGuard (owner : String) : String :=
  allOf (guardParts (Text.segments owner))

namespace MemberRef

/-- The name of the object that must be there before its prototype can be looked at. -/
def guardedOwner (ref : MemberRef) : String :=
  (Text.dropEnd? ".prototype" ref.owner).getD ref.owner

/-- The well-known symbol that is looked at, if it is one. -/
def symbol? (ref : MemberRef) : Option String :=
  match Text.dropStart? "Symbol." ref.property with
  | some symbol => some symbol
  | none =>
      match Text.dropStart? "@@" ref.property with
      | some symbol => some symbol
      | none => if ref.isSymbol then some ref.property else none

/-- Conditions, after the check that the object is there unless it is the global one. -/
def guarded (ref : MemberRef) (condition : String) : String :=
  if ref.owner = "self" then condition
  else allOf [ownerGuard ref.guardedOwner, condition]

/-- The check of a well-known symbol. -/
def symbolCode (ref : MemberRef) (symbol : String) : String :=
  allOf
    [has "Symbol" "self", has symbol "Symbol",
      ref.guarded ("Symbol." ++ symbol ++ " in " ++ ref.owner)]

/-- The check that an object itself has a property. -/
def ownCode (ref : MemberRef) : String :=
  "Object.prototype.hasOwnProperty.call(" ++ ref.owner ++ ", " ++ inQuotes ref.property ++ ")"

/-- The check of a property that is no symbol. -/
def propertyCode (ref : MemberRef) : String :=
  ref.guarded (if ref.isOwn then ref.ownCode else has ref.property ref.owner)

/-- The expression that looks at a property. -/
def code (ref : MemberRef) : String :=
  match Text.dropStart? "constructor." ref.property with
  | some name => "bcd.testConstructor(" ++ inQuotes name ++ ")"
  | none =>
      match ref.symbol? with
      | some symbol => ref.symbolCode symbol
      | none => ref.propertyCode

end MemberRef

/-- Texts without those that equal the text before them. -/
def dropRepeats : List String → List String
  | [] => []
  | [text] => [text]
  | first :: second :: more =>
      if first = second then dropRepeats (second :: more)
      else first :: dropRepeats (second :: more)

namespace TestCode

mutual

/-- The expression of a probe. -/
def compile : TestCode → String
  | raw code => code
  | member ref => ref.code
  | combined items combinator =>
      (" " ++ combinator.operator ++ " ").intercalate (dropRepeats (compileAll items))

/-- The expressions of some probes. -/
def compileAll : List TestCode → List String
  | [] => []
  | item :: more => compile item :: compileAll more

end

end TestCode
end Probe
end FeatureProbes
