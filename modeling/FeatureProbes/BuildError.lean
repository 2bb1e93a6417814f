import FeatureProbes.Catalog.Problem
import FeatureProbes.WebIdl.Basic
import FeatureProbes.WebIdl.Parser.Basic

/-!
# Build errors

The causes for which nothing can be built, with a stable code for each class of causes and the
text that tells the cause.
-/

namespace FeatureProbes

/-- Why nothing can be built. -/
inductive BuildError where
  | idlSyntax (fragment : String) (line : Nat) (problem : WebIdl.SyntaxProblem)
  | partialWithoutBase (kind : WebIdl.DefinitionKind) (name : String)
  | duplicateMember (owner member : String)
  | duplicateDefinition (name : String)
  | mixinTargetNotFound (target mixin : String)
  | mixinNotFound (mixin target : String)
  | exposedNotFound (kind name : String)
  | missingExposed (kind : WebIdl.DefinitionKind) (name : String) (line : UInt32)
  | unexpectedExposedValue (value : Option WebIdl.AttributeValue)
  | invalidScope (kind name scope : String)
  | unknownType (name : String)
  | cssPropertyAlreadyKnown (name : String)
  | undefinedResource (resource path : String)
  /-- The chain starts with the node whose code is resolved. -/
  | cyclicImport (path : String) (chain : List String)
  | invalidCatalog (problem : Catalog.Problem)
  /-- The document that names everything to build cannot be read. -/
  | invalidDocument
  deriving Repr, DecidableEq

namespace BuildError

/-- The code that a fault is reported under, which some faults share. -/
def code : BuildError → String
  | idlSyntax .. => "P-ERR-IDL-SYNTAX"
  | partialWithoutBase .. => "P-ERR-PARTIAL"
  | duplicateMember .. => "P-ERR-DUPLICATE"
  | duplicateDefinition .. => "P-ERR-DUPLICATE"
  | mixinTargetNotFound .. => "P-ERR-MIXIN"
  | mixinNotFound .. => "P-ERR-MIXIN"
  | exposedNotFound .. => "P-ERR-EXPOSED"
  | missingExposed .. => "P-ERR-EXPOSED"
  | unexpectedExposedValue .. => "P-ERR-EXPOSED"
  | invalidScope .. => "P-ERR-SCOPE"
  | unknownType .. => "P-ERR-TYPE"
  | cssPropertyAlreadyKnown .. => "P-ERR-CSS"
  | undefinedResource .. => "P-ERR-RESOURCE"
  | cyclicImport .. => "P-ERR-IMPORT-CYCLE"
  | invalidCatalog .. => "P-ERR-CATALOG"
  | invalidDocument => "P-ERR-CATALOG"

/-- What a message calls the right-hand side of an extended attribute. -/
def describeValue : Option WebIdl.AttributeValue → String
  | none => "none"
  | some value => value.describe

/-- The text of an error. -/
def message : BuildError → String
  | idlSyntax fragment line problem =>
      "IDL syntax error in " ++ fragment ++ " at line " ++ toString line ++ ": " ++
        problem.message
  | partialWithoutBase kind name =>
      "Original definition not found for partial " ++ kind.describe ++ " " ++ name
  | duplicateMember owner member => "Duplicate definition of " ++ owner ++ "." ++ member
  | duplicateDefinition name => "Duplicate definition of " ++ name
  | mixinTargetNotFound target mixin =>
      "Target " ++ target ++ " not found for interface mixin " ++ mixin
  | mixinNotFound mixin target =>
      "Interface mixin " ++ mixin ++ " not found for target " ++ target
  | exposedNotFound kind name =>
      "Exposed extended attribute not found on " ++ kind ++ " " ++ name
  | missingExposed kind name line =>
      kind.describe ++ " " ++ name ++ " (line " ++ toString line.toNat ++
        ") is missing the Exposed extended attribute"
  | unexpectedExposedValue value =>
      "Unexpected RHS \"" ++ describeValue value ++ "\" for Exposed extended attribute"
  | invalidScope kind name scope =>
      kind ++ " " ++ name ++ " is exposed on " ++ scope ++ " but " ++ scope ++
        " is not a valid scope"
  | unknownType name => "Unknown type " ++ name
  | cssPropertyAlreadyKnown name => "Custom CSS property already known: " ++ name
  | undefinedResource resource path =>
      "Resource " ++ resource ++ " is not defined but referenced in " ++ path
  | cyclicImport path chain =>
      "Cyclic import of " ++ path ++ " (chain: " ++ " -> ".intercalate chain ++ ")"
  | invalidCatalog problem =>
      "Invalid custom test catalog at <root>: " ++ problem.message
  | invalidDocument => "Invalid custom test catalog at <input>"

end BuildError
end FeatureProbes
