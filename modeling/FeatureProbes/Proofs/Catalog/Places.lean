import FeatureProbes.Catalog.Basic
import FeatureProbes.Proofs.Text.Segments
import Mathlib.Data.List.Basic
import Mathlib.Data.List.Nodup
import Mathlib.Data.List.Perm.Subperm

/-!
# Places in a catalog

A place is the row of names that leads from the root of a tree to one of its nodes.  A tree has as
many places as nodes, and a dotted path leads to a node only if its segments are a place.  Two
paths with the same segments are the same path, so different paths that lead to nodes are at most
as many as there are nodes.
-/

namespace FeatureProbes

namespace Catalog
namespace Node

mutual

/-- The rows of names that lead to the nodes of a tree. -/
def places : Node → List (List String)
  | ⟨_, _, _, _, _, children⟩ => [] :: placesOfChildren children

/-- The rows of names that lead to the nodes of some named trees. -/
def placesOfChildren : List (String × Node) → List (List String)
  | [] => []
  | (name, node) :: more => (places node).map (name :: ·) ++ placesOfChildren more

end

mutual

/-- A tree has as many places as nodes. -/
theorem length_places :
    ∀ node : Node, (places node).length = size node
  | ⟨_, _, _, _, _, children⟩ => by
      simp [places, size, length_placesOfChildren children]

theorem length_placesOfChildren :
    ∀ children : List (String × Node),
      (placesOfChildren children).length = sizeOfChildren children
  | [] => rfl
  | (name, node) :: more => by
      simp [placesOfChildren, sizeOfChildren, length_places node, length_placesOfChildren more]

end

theorem nil_mem_places
    (node : Node) :
    [] ∈ places node := by
  cases node
  simp [places]

theorem cons_mem_placesOfChildren
    {name : String} {child : Node} {names : List String} {children : List (String × Node)}
    (hchild : (name, child) ∈ children)
    (hnames : names ∈ places child) :
    name :: names ∈ placesOfChildren children := by
  induction children with
  | nil =>
      simp at hchild
  | cons head more ih =>
      obtain ⟨headName, headNode⟩ := head
      rw [placesOfChildren, List.mem_append]
      rcases List.mem_cons.1 hchild with heq | hchild
      · cases heq
        exact Or.inl (List.mem_map_of_mem hnames)
      · exact Or.inr (ih hchild)

theorem mem_children_of_child?
    {node child : Node} {name : String}
    (h : node.child? name = some child) :
    (name, child) ∈ node.children := by
  rw [child?, Option.map_eq_some_iff] at h
  obtain ⟨⟨found, found'⟩, hfind, rfl⟩ := h
  have hname := List.find?_some hfind
  have hmem := List.mem_of_find?_eq_some hfind
  simp only [decide_eq_true_eq] at hname
  exact hname ▸ hmem

/-- Where a row of names leads to a node, it is a place. -/
theorem mem_places_of_descendant?
    {names : List String} {node found : Node}
    (h : descendant? names node = some found) :
    names ∈ places node := by
  induction names generalizing node with
  | nil =>
      exact nil_mem_places node
  | cons name names ih =>
      rw [descendant?, Option.bind_eq_some_iff] at h
      obtain ⟨child, hchild, hfound⟩ := h
      have hplace := cons_mem_placesOfChildren (mem_children_of_child? hchild) (ih hfound)
      cases node
      rw [places]
      exact List.mem_cons_of_mem _ hplace

end Node

/-- Different paths that lead to nodes are at most as many as there are nodes. -/
theorem length_le_size
    {catalog : Catalog} {paths : List String}
    (hnodup : paths.Nodup)
    (hnode : ∀ path ∈ paths, (catalog.node? path).isSome) :
    paths.length ≤ catalog.root.size := by
  have hplaces : paths.map Text.segments ⊆ catalog.root.places := by
    intro names hmem
    obtain ⟨path, hpath, rfl⟩ := List.mem_map.1 hmem
    obtain ⟨found, hfound⟩ := Option.isSome_iff_exists.1 (hnode path hpath)
    exact Node.mem_places_of_descendant? hfound
  have hsub := (List.Nodup.map Text.segments_injective hnodup).subperm hplaces
  have hle := hsub.length_le
  rwa [List.length_map, Node.length_places] at hle

end Catalog
end FeatureProbes
