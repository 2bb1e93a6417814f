import FeatureProbes.Catalog.Reader
import FeatureProbes.Proofs.Catalog.Places
import FeatureProbes.Proofs.Reporting
import FeatureProbes.Proofs.SortedMap

/-!
# Catalogs in order

A catalog is read from a document in which the members of every object are in the order of their
names.  So in a catalog that is read the nodes below each node are in this order, and no two of them
have the same name.
-/

namespace FeatureProbes

namespace Json
namespace Value

/-- The members of an object are in the order of their names, and so are those of the objects that
are its members. -/
inductive IsSorted : Value → Prop where
  | mk {value : Value}
      (hnames : ∀ members, value = object members →
        members.Pairwise fun first second => first.1 < second.1)
      (hbelow : ∀ members, value = object members → ∀ member ∈ members, IsSorted member.2) :
      IsSorted value

theorem isSorted_object_iff
    {members : List (String × Value)} :
    IsSorted (object members) ↔
      (members.Pairwise fun first second => first.1 < second.1) ∧
        ∀ member ∈ members, IsSorted member.2 := by
  constructor
  · rintro ⟨hnames, hbelow⟩
    exact ⟨hnames members rfl, hbelow members rfl⟩
  · rintro ⟨hnames, hbelow⟩
    refine ⟨?_, ?_⟩
    · rintro _ ⟨⟩
      exact hnames
    · rintro _ ⟨⟩
      exact hbelow

mutual

theorem isSorted_normalize :
    ∀ value : Value, value.normalize.IsSorted
  | object members => by
      refine isSorted_object_iff.2 ⟨(SortedMap.ofList (normalizeMembers members)).ascending, ?_⟩
      intro member hmember
      exact isSorted_normalizeMembers members member (SortedMap.mem_of_mem_entries_ofList hmember)
  | null | bool _ | integer _ | decimal _ | string _ | array _ =>
      .mk (fun _ heq => nomatch heq) (fun _ heq => nomatch heq)

theorem isSorted_normalizeMembers :
    ∀ (members : List (String × Value)), ∀ member ∈ normalizeMembers members, member.2.IsSorted
  | [], _, hmember => nomatch hmember
  | (_, value) :: more, member, hmember => by
      rcases List.mem_cons.1 hmember with rfl | hmember
      · exact isSorted_normalize value
      · exact isSorted_normalizeMembers more member hmember

end

end Value
end Json

namespace Catalog

open Json (Value)

namespace Node

/-- The nodes below a node are in the order of their names, and so are those below them. -/
inductive IsOrdered : Node → Prop where
  | mk {node : Node}
      (hchildren : node.children.Pairwise fun first second => first.1 < second.1)
      (hbelow : ∀ child ∈ node.children, IsOrdered child.2) :
      IsOrdered node

theorem IsOrdered.children
    {node : Node}
    (h : node.IsOrdered) :
    node.children.Pairwise fun first second => first.1 < second.1 := by
  obtain ⟨hchildren, -⟩ := h
  exact hchildren

theorem IsOrdered.descendant?
    {names : List String} {node found : Node}
    (h : node.IsOrdered)
    (hfound : Node.descendant? names node = some found) :
    found.IsOrdered := by
  induction names generalizing node with
  | nil =>
      cases hfound
      exact h
  | cons name names ih =>
      obtain ⟨child, hchild, hfound⟩ := Option.bind_eq_some_iff.1 hfound
      obtain ⟨-, hbelow⟩ := h
      exact ih (hbelow _ (mem_children_of_child? hchild)) hfound

theorem isOrdered_of_children_eq_nil
    {node : Node}
    (h : node.children = []) :
    node.IsOrdered := by
  refine ⟨?_, ?_⟩
  · rw [h]
    exact .nil
  · rw [h]
    rintro _ ⟨⟩

theorem IsOrdered.congr
    {node node' : Node}
    (h : node.IsOrdered)
    (hchildren : node'.children = node.children) :
    node'.IsOrdered := by
  obtain ⟨hordered, hbelow⟩ := h
  rw [← hchildren] at hordered hbelow
  exact ⟨hordered, hbelow⟩

/-- Members that belong to a node itself leave the nodes below it. -/
theorem children_of_withOwn
    {node node' : Node} {key : String} {value : Value}
    (h : node.withOwn key value = .ok node') :
    node'.children = node.children := by
  unfold withOwn at h
  split at h
  · obtain ⟨base, -, h⟩ := Reporting.bind_eq_ok_iff.1 h
    cases h
    rfl
  · split at h
    · obtain ⟨test, -, h⟩ := Reporting.bind_eq_ok_iff.1 h
      cases h
      rfl
    · split at h
      · obtain ⟨names, -, h⟩ := Reporting.bind_eq_ok_iff.1 h
        cases h
        rfl
      · split at h
        · obtain ⟨entries, -, h⟩ := Reporting.bind_eq_ok_iff.1 h
          cases h
          rfl
        · cases h

theorem IsOrdered.withChild
    {node child : Node} {name : String}
    (h : node.IsOrdered)
    (hchild : child.IsOrdered)
    (hname : ∀ before ∈ node.children, before.1 < name) :
    (node.withChild name child).IsOrdered := by
  obtain ⟨hchildren, hbelow⟩ := h
  refine ⟨?_, ?_⟩
  · refine List.pairwise_append.2 ⟨hchildren, List.pairwise_singleton _ _, ?_⟩
    intro before hbefore last hlast
    rw [List.mem_singleton.1 hlast]
    exact hname before hbefore
  · intro last hlast
    rcases List.mem_append.1 hlast with hlast | hlast
    · exact hbelow last hlast
    · rw [List.mem_singleton.1 hlast]
      exact hchild

mutual

theorem isOrdered_of_ofValue :
    ∀ (value : Value) {node : Node}, value.IsSorted → Node.ofValue value = .ok node →
      node.IsOrdered
  | .object members, node, hsorted, h => by
      obtain ⟨hnames, hbelow⟩ := Value.isSorted_object_iff.1 hsorted
      rw [Node.ofValue] at h
      exact isOrdered_of_addMembers members hnames hbelow (isOrdered_of_children_eq_nil rfl)
        (by rintro _ ⟨⟩) h
  | .string _, _, _, h => by
      cases h
      exact isOrdered_of_children_eq_nil rfl
  | .bool false, _, _, h => by
      cases h
      exact isOrdered_of_children_eq_nil rfl
  | .bool true, _, _, h | .null, _, _, h | .integer _, _, _, h | .decimal _, _, _, h
  | .array _, _, _, h => nomatch h

theorem isOrdered_of_addMembers :
    ∀ (members : List (String × Value)) {node result : Node},
      (members.Pairwise fun first second => first.1 < second.1) →
      (∀ member ∈ members, member.2.IsSorted) →
      node.IsOrdered →
      (∀ child ∈ node.children, ∀ member ∈ members, child.1 < member.1) →
      Node.addMembers node members = .ok result → result.IsOrdered
  | [], _, _, _, _, hnode, _, h => by
      cases h
      exact hnode
  | (key, value) :: more, node, result, hnames, hbelow, hnode, hlater, h => by
      obtain ⟨hkey, hmore⟩ := List.pairwise_cons.1 hnames
      have hbelowMore : ∀ member ∈ more, member.2.IsSorted :=
        fun member hmember => hbelow member (List.mem_cons_of_mem _ hmember)
      rw [Node.addMembers] at h
      split at h
      · cases hown : node.withOwn key value with
        | error problem =>
            rw [hown] at h
            cases h
        | ok node' =>
            rw [hown] at h
            have hsame := children_of_withOwn hown
            refine isOrdered_of_addMembers more hmore hbelowMore (hnode.congr hsame) ?_ h
            rw [hsame]
            intro child hchild member hmember
            exact hlater child hchild member (List.mem_cons_of_mem _ hmember)
      · cases hchild : Node.ofValue value with
        | error problem =>
            rw [hchild] at h
            cases h
        | ok child =>
            rw [hchild] at h
            have hordered := isOrdered_of_ofValue value (hbelow _ List.mem_cons_self) hchild
            refine isOrdered_of_addMembers more hmore hbelowMore (hnode.withChild hordered ?_) ?_ h
            · intro before hbefore
              exact hlater before hbefore _ List.mem_cons_self
            · intro before hbefore member hmember
              rcases List.mem_append.1 hbefore with hbefore | hbefore
              · exact hlater before hbefore member (List.mem_cons_of_mem _ hmember)
              · rw [List.mem_singleton.1 hbefore]
                exact hkey member hmember

end

end Node

/-- The nodes below each node of a catalog are in the order of their names. -/
def IsOrdered (catalog : Catalog) : Prop :=
  catalog.root.IsOrdered

theorem IsOrdered.node?
    {catalog : Catalog} {path : String} {node : Node}
    (h : catalog.IsOrdered)
    (hnode : catalog.node? path = some node) :
    node.IsOrdered :=
  Node.IsOrdered.descendant? h hnode

theorem isOrdered_of_readCategory
    {value : Value} {node : Node}
    (hsorted : value.IsSorted)
    (h : readCategory value = .ok node) :
    node.IsOrdered := by
  unfold readCategory at h
  split at h
  · cases hnode : Node.ofValue value with
    | error problem =>
        rw [hnode] at h
        cases h
    | ok found =>
        rw [hnode] at h
        cases h
        exact Node.isOrdered_of_ofValue value hsorted hnode
  · cases h

theorem isOrdered_of_ofMembers
    {members : List (String × Value)} {catalog : Catalog}
    (hnames : members.Pairwise fun first second => first.1 < second.1)
    (hbelow : ∀ member ∈ members, member.2.IsSorted)
    (h : ofMembers members = .ok catalog) :
    catalog.IsOrdered := by
  have hcategories : ∃ children resources,
      (members.filter fun member => member.1 ≠ "__resources").mapM
        (fun member => (Prod.mk member.1) <$> readCategory member.2) = .ok children ∧
      catalog = ⟨{ Node.empty with children := children }, resources⟩ := by
    unfold ofMembers at h
    dsimp only at h
    -- The resources are read from a member or are empty; the nodes are read in the same way.
    split at h
    all_goals
      obtain ⟨resources, -, h⟩ := Reporting.bind_eq_ok_iff.1 h
      obtain ⟨children, hchildren, h⟩ := Reporting.bind_eq_ok_iff.1 h
      cases h
      exact ⟨children, resources, hchildren, rfl⟩
  obtain ⟨children, resources, hchildren, rfl⟩ := hcategories
  have hread : List.Forall₂
      (fun (member : String × Value) (child : String × Node) =>
        member.1 = child.1 ∧ readCategory member.2 = .ok child.2)
      (members.filter fun member => member.1 ≠ "__resources") children := by
    refine (Reporting.mapM_eq_ok_iff.1 hchildren).imp fun member child hchild => ?_
    obtain ⟨node, hnode, hchild⟩ := Reporting.bind_eq_ok_iff.1 hchild
    cases hchild
    exact ⟨rfl, hnode⟩
  have hkeys : (members.filter fun member => member.1 ≠ "__resources").map Prod.fst =
      children.map Prod.fst := by
    rw [← List.forall₂_eq_eq_eq, List.forall₂_map_left_iff, List.forall₂_map_right_iff]
    exact hread.imp fun _ _ h => h.1
  refine ⟨?_, ?_⟩
  · have hsorted := List.pairwise_map.2 (hnames.filter fun member => member.1 ≠ "__resources")
    rw [hkeys] at hsorted
    exact List.pairwise_map.1 hsorted
  · intro child hchild
    obtain ⟨member, hmember, -, hnode⟩ := (Reporting.exists_of_forall₂ hread).1 child hchild
    exact isOrdered_of_readCategory (hbelow member (List.mem_of_mem_filter hmember)) hnode

/-- A catalog that is read is in order. -/
theorem isOrdered_of_ofDocument
    {document : Value} {catalog : Catalog}
    (h : ofDocument document = .ok catalog) :
    catalog.IsOrdered := by
  have hsorted := Value.isSorted_normalize document
  unfold ofDocument at h
  dsimp only at h
  split at h
  · rename_i read hread
    cases h
    split at hread
    · rename_i members hmembers
      rw [hmembers] at hsorted
      obtain ⟨hnames, hbelow⟩ := Value.isSorted_object_iff.1 hsorted
      exact isOrdered_of_ofMembers hnames hbelow hread
    · cases hread
  · cases h

end Catalog
end FeatureProbes
