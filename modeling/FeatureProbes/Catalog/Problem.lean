/-!
# What can be wrong with a catalog

The reasons for which a document is no catalog of custom tests, and the words in which they are
told.  A reason inside a category is told with the keys that lead to it.
-/

namespace FeatureProbes
namespace Catalog

/-- What can be wrong with a node of a category. -/
inductive NodeProblem where
  /-- The node is neither a string, `false` nor a mapping. -/
  | notNode
  | notCode (key : String)
  | notList (key : String)
  | notListOfStrings (key : String)
  | extraNotMapping
  | extraNotCode (name : String)
  | unknownKey (key : String)
  | child (key : String) (problem : NodeProblem)
  deriving Repr, DecidableEq

/-- The text of a message. -/
def NodeProblem.message : NodeProblem → String
  | notNode => "custom test must be a string, false, or a mapping"
  | notCode key => key ++ " must be a string or false"
  | notList key => key ++ " must be a list of strings"
  | notListOfStrings key => key ++ " must contain only strings"
  | extraNotMapping => "__additional must be a mapping"
  | extraNotCode name => "__additional." ++ name ++ " must be a string"
  | unknownKey key => "unknown key " ++ key
  | child key problem => key ++ ": " ++ problem.message

/-- What can be wrong with a catalog. -/
inductive Problem where
  | wrongType (found expected : String)
  | wrongLength (length : Nat) (expected : String)
  | unknownVariant (name : String)
  | missingField (name : String)
  /-- Something in a category is neither a truth value, a string, a list nor a mapping. -/
  | unreadable
  | node (problem : NodeProblem)
  deriving Repr, DecidableEq

/-- The text of a message. -/
def Problem.message : Problem → String
  | wrongType found expected => "invalid type: " ++ found ++ ", expected " ++ expected
  | wrongLength length expected =>
      "invalid length " ++ toString length ++ ", expected " ++ expected
  | unknownVariant name =>
      "unknown variant \x60" ++ name ++
        "\x60, expected one of \x60audio\x60, \x60video\x60, \x60image\x60, \x60instance\x60"
  | missingField name => "missing field \x60" ++ name ++ "\x60"
  | unreadable => "data did not match any variant of untagged enum NodeRepr"
  | node problem => problem.message

end Catalog
end FeatureProbes
