import FeatureProbes.BuildError
import FeatureProbes.SortedMap
import FeatureProbes.WebIdl.Basic

/-!
# Exposure

An extended attribute tells in which scopes a definition can be reached: in all of them, in one, or
in those of a list.  Some scopes have another name in the texts of definitions.
-/

namespace FeatureProbes
namespace WebIdl

/-- The scope that a name in a text stands for. -/
def scopeOfName (name : String) : String :=
  if name = "DedicatedWorker" then "Worker"
  else if name = "RTCIdentityProviderGlobalScope" then "RTCIdentityProvider"
  else name

/-- The scopes that a list of names stands for, which must be valid. -/
def scopesOfNames (kind owner : String) (valid : NameSet) (names : List String) :
    Except BuildError NameSet :=
  match (names.map scopeOfName).find? fun scope => !valid.contains scope with
  | some scope => .error (.invalidScope kind owner scope)
  | none => .ok (.ofNames (names.map scopeOfName))

/-- The scopes that extended attributes name.  The kind and the owner only matter for errors. -/
def exposedScopes (kind owner : String) (attributes : List ExtendedAttribute) (valid : NameSet) :
    Except BuildError NameSet :=
  match findAttribute attributes "Exposed" with
  | none => .error (.exposedNotFound kind owner)
  | some exposed =>
      match exposed.value with
      | some .wildcard => .ok valid
      | some (.identifier name) => scopesOfNames kind owner valid [name]
      | some (.identifierList names) => scopesOfNames kind owner valid names
      | value => .error (.unexpectedExposedValue value)

/-- The scopes in which a definition can be reached. -/
def Definition.exposure (definition : Definition) (valid : NameSet) :
    Except BuildError NameSet :=
  exposedScopes definition.kind.describe definition.name definition.attributes valid

end WebIdl
end FeatureProbes
