import FeatureProbes.Catalog.Override
import FeatureProbes.Json.Decode

/-!
# Catalogs and diagnostics as data

How the nodes of a catalog, what it says about a test, and diagnostics are written as data.
Diagnostics are read back as well.
-/

namespace FeatureProbes

open Json (Record Value)

namespace Diagnostic

/-- A diagnostic as data. -/
def toValue (diagnostic : Diagnostic) : Value :=
  .object
    [("code", .string diagnostic.code), ("path", .string diagnostic.path),
      ("message", .string diagnostic.message)]

/-- The note that a value stands for. -/
def ofValue? (value : Value) : Option Diagnostic := do
  let record ← Record.ofValue? ["code", "path", "message"] value
  let code ← record.required? "code" Value.string?
  let path ← record.required? "path" Value.string?
  let message ← record.required? "message" Value.string?
  return ⟨code, path, message⟩

/-- A diagnostic is read as it was written. -/
theorem ofValue?_toValue
    (diagnostic : Diagnostic) :
    ofValue? diagnostic.toValue = some diagnostic := by
  rfl

end Diagnostic

namespace Catalog

mutual

/-- A node as data. -/
def Node.toValue : Node → Value
  | ⟨base, test, useDefault, resources, additional, children⟩ =>
      .object
        [("base", .ofString? base), ("test", .ofString? test), ("useDefault", .bool useDefault),
          ("resources", .ofStrings resources), ("additional", .ofMap .string additional),
          ("children", .object (Node.childrenToMembers children))]

def Node.childrenToMembers : List (String × Node) → List (String × Value)
  | [] => []
  | (name, node) :: more => (name, Node.toValue node) :: Node.childrenToMembers more

end

/-- Resources as data. -/
def Resources.toValue (resources : Resources) : Value :=
  .ofMap Resource.toValue resources

/-- The code of a node and the names of its resources as data. -/
def NodeData.toValue (node : NodeData) : Value :=
  .object
    [("base", .ofString? node.base), ("test", .ofString? node.test),
      ("resources", .ofStrings node.resources)]

/-- What a catalog says about a test as data. -/
def Override.toValue (custom : Override) : Value :=
  .object
    [("test", .ofString? custom.test), ("resources", Resources.toValue custom.resources)]

end Catalog
end FeatureProbes
