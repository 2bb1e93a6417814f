import FeatureProbes.BuildError
import FeatureProbes.SortedMap
import FeatureProbes.WebIdl.Basic

/-!
# Merging definitions

Definitions come in fragments.  The members of a partial definition go to the definition of the
same name and kind, and the members of a mixin go to the interfaces that include it.  One mixin
is different: where a global object includes it, its members are reached without an object, so
they are listed apart as global members.

A member that moves to another definition takes along the extended attribute that restricts where
it is exposed.
-/

namespace FeatureProbes
namespace WebIdl

/-- The mixin whose members become global members. -/
def globalMixin : String := "WindowOrWorkerGlobalScope"

/-- The interface that is a global object even if no extended attribute says so. -/
def globalInterface : String := "Window"

/-- The definitions of each fragment, by the names of the fragments. -/
abbrev Fragments := SortedMap (List Definition)

/-- The definitions of all fragments, in the order of the names of the fragments. -/
def Fragments.definitions (fragments : Fragments) : List Definition :=
  fragments.entries.flatMap Prod.snd

/-- A member that is reached without an object. -/
structure GlobalMember where
  member : Member
  /-- The mixin that declares the member. -/
  mixin : String
  /-- The global interfaces that include the mixin. -/
  targets : List String
  deriving Repr

/-- Definitions without partial ones, mixins and inclusions. -/
structure Merged where
  definitions : List Definition
  globals : List GlobalMember
  deriving Repr

/-- The first definition of a name. -/
def findDefinition (definitions : List Definition) (name : String) : Option Definition :=
  definitions.find? fun definition => definition.name == name

/-- The merged definition of a name. -/
def Merged.find? (merged : Merged) (name : String) : Option Definition :=
  findDefinition merged.definitions name

namespace Definition

/-- Whether other definitions add to a definition, and not the other way round. -/
def isBase (definition : Definition) : Bool :=
  !definition.isPartial && definition.kind != .includes

/-- Whether an interface describes a global object. -/
def isGlobalObject (definition : Definition) : Bool :=
  definition.name == globalInterface || definition.hasAttribute "Global"

/-- The members of a definition, with its restriction of where they are exposed on those that
have none of their own. -/
def exposedMembers (definition : Definition) : List Member :=
  match definition.attribute? "Exposed" with
  | none => definition.members
  | some exposed =>
      definition.members.map fun member =>
        if member.hasAttribute "Exposed" then member
        else { member with attributes := member.attributes ++ [exposed] }

end Definition

/-- The first name of the second members that one of the first members has. -/
def sharedName? (existing incoming : List Member) : Option String :=
  (incoming.filterMap Member.name).find? fun name =>
    existing.any fun member => member.name == some name

/-- The definitions with more members for those of a name, behind the members that they have. -/
def addMembers (definitions : List Definition) (name : String) (members : List Member) :
    List Definition :=
  definitions.map fun definition =>
    if definition.name == name then
      { definition with members := definition.members ++ members }
    else definition

/-- Add members to a definition of the list; none of them may share its name with a member that is
there already. -/
def extend (definitions : List Definition) (target : Definition) (members : List Member) :
    Except BuildError (List Definition) :=
  match sharedName? target.members members with
  | some name => .error (.duplicateMember target.name name)
  | none => .ok (addMembers definitions target.name members)

/-- The definitions that others add to, whose names must differ. -/
def basesFrom (seen : List Definition) : List Definition → Except BuildError (List Definition)
  | [] => .ok seen
  | definition :: more =>
      if (findDefinition seen definition.name).isSome then
        .error (.duplicateDefinition definition.name)
      else basesFrom (seen ++ [definition]) more

/-- The definitions with the members of a partial one, whose base has to be of its kind. -/
def addPartial (definitions : List Definition) (part : Definition) :
    Except BuildError (List Definition) :=
  match (findDefinition definitions part.name).filter fun base => base.kind == part.kind with
  | none => .error (.partialWithoutBase part.kind part.name)
  | some base => extend definitions base part.exposedMembers

/-- Note that one more global object includes the mixin of global members. -/
def addGlobals (globals : List GlobalMember) (mixin : Definition) (target : String) :
    List GlobalMember :=
  if globals.isEmpty then
    mixin.exposedMembers.map fun member => ⟨member, mixin.name, [target]⟩
  else
    globals.map fun item =>
      if item.targets.contains target then item
      else { item with targets := item.targets ++ [target] }

/-- Carry out an inclusion. -/
def addInclusion (merged : Merged) (inclusion : Definition) : Except BuildError Merged :=
  let mixinName := inclusion.included.getD ""
  let kinds := fun kind => Option.filter fun found : Definition => found.kind == kind
  match kinds .interface (merged.find? inclusion.name) with
  | none => .error (.mixinTargetNotFound inclusion.name mixinName)
  | some target =>
      match kinds .mixin (merged.find? mixinName) with
      | none => .error (.mixinNotFound mixinName inclusion.name)
      | some mixin =>
          if mixinName == globalMixin && target.isGlobalObject then
            .ok { merged with globals := addGlobals merged.globals mixin target.name }
          else
            match extend merged.definitions target mixin.exposedMembers with
            | .ok definitions => .ok { merged with definitions := definitions }
            | .error error => .error error

/-- The bases with the members of their partials and then of the mixins they include.  The mixins
themselves are left out at the end. -/
def mergeDefinitions (all : List Definition) : Except BuildError Merged := do
  let bases ← basesFrom [] (all.filter Definition.isBase)
  let whole ← (all.filter Definition.isPartial).foldlM addPartial bases
  let inclusions := all.filter fun definition => definition.kind == .includes
  let merged ← inclusions.foldlM addInclusion ⟨whole, []⟩
  return { merged with
    definitions := merged.definitions.filter fun definition => definition.kind != .mixin }

/-- Merge the definitions of two collections of fragments. -/
def merge (spec custom : Fragments) : Except BuildError Merged :=
  mergeDefinitions (spec.definitions ++ custom.definitions)

end WebIdl
end FeatureProbes
