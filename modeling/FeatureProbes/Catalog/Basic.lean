import FeatureProbes.Catalog.Resource
import FeatureProbes.Text.Segments

/-!
# Catalogs of custom tests

A catalog is a tree of nodes, which are reached by dotted paths, with a table of resources.  A node
may have setup code, a test, the names of the resources they need, and further tests under names
of their own.
-/

namespace FeatureProbes

/-- A node of a catalog. -/
structure Catalog.Node where
  /-- The setup code that the node shares with the nodes below it. -/
  base : Option String
  test : Option String
  /-- Whether the test that stands without the catalog is kept. -/
  useDefault : Bool
  /-- The names of the resources that the code needs. -/
  resources : List String
  /-- Further tests, by their names. -/
  additional : SortedMap String
  /-- The nodes below, in the order of their names. -/
  children : List (String × Catalog.Node)

namespace Catalog.Node

/-- A node without code. -/
def empty : Node := ⟨none, none, false, [], .empty, []⟩

instance : Inhabited Node := ⟨empty⟩

/-- The child of a name, the first one if there are several. -/
def child? (node : Node) (name : String) : Option Node :=
  (node.children.find? fun child => child.1 = name).map Prod.snd

/-- The node at some segments below. -/
def descendant? : List String → Node → Option Node
  | [], node => some node
  | name :: more, node => (node.child? name).bind (descendant? more)

mutual

/-- The number of nodes of a tree. -/
def size : Node → Nat
  | ⟨_, _, _, _, _, children⟩ => sizeOfChildren children + 1

/-- The number of nodes of some trees. -/
def sizeOfChildren : List (String × Node) → Nat
  | [] => 0
  | (_, node) :: more => size node + sizeOfChildren more

end

end Catalog.Node

/-- A catalog of custom tests. -/
structure Catalog where
  /-- The node above all categories. -/
  root : Catalog.Node
  resources : Catalog.Resources

namespace Catalog

/-- The catalog without tests. -/
def empty : Catalog := ⟨.empty, .empty⟩

instance : Inhabited Catalog := ⟨empty⟩

/-- The node at a dotted path. -/
def node? (catalog : Catalog) (path : String) : Option Node :=
  Node.descendant? (Text.segments path) catalog.root

/-- The setup code at a path. -/
def base? (catalog : Catalog) (path : String) : Option String :=
  (catalog.node? path).bind Node.base

/-- The resource of a name. -/
def resource? (catalog : Catalog) (name : String) : Option Resource :=
  catalog.resources.get? name

end Catalog
end FeatureProbes
