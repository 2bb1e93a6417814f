import FeatureProbes.Proofs.Catalog.Needed
import FeatureProbes.Proofs.Catalog.Ordered
import FeatureProbes.Proofs.Catalog.Subtests

/-!
# Catalogs without additional tests

A node may have additional tests under names of its own.  Leaving them out of all nodes changes
nothing in the setup code, so interfaces and members are tested as before.  Of the tests below an
interface those that stay are the same as before, and those that go have the path of an additional
test.  An additional test never takes the place of a node's own test at the same path: the node's
own test comes after it.
-/

namespace FeatureProbes
namespace Catalog

open Reporting (Yields)

/-! ## Leaving additional tests out -/

namespace Node

mutual

/-- A node without additional tests, also in the nodes below. -/
def withoutAdditional : Node → Node
  | ⟨base, test, useDefault, resources, _, children⟩ =>
      ⟨base, test, useDefault, resources, .empty, withoutAdditionalBelow children⟩

def withoutAdditionalBelow : List (String × Node) → List (String × Node)
  | [] => []
  | (name, node) :: more => (name, withoutAdditional node) :: withoutAdditionalBelow more

end

mutual

theorem size_withoutAdditional :
    ∀ node : Node, node.withoutAdditional.size = node.size
  | ⟨_, _, _, _, _, children⟩ => by
      rw [withoutAdditional, size, size, sizeOfChildren_withoutAdditionalBelow children]

theorem sizeOfChildren_withoutAdditionalBelow :
    ∀ children : List (String × Node),
      sizeOfChildren (withoutAdditionalBelow children) = sizeOfChildren children
  | [] => rfl
  | (name, node) :: more => by
      rw [withoutAdditionalBelow, sizeOfChildren, sizeOfChildren, size_withoutAdditional node,
        sizeOfChildren_withoutAdditionalBelow more]

end

theorem withoutAdditionalBelow_eq_map
    (children : List (String × Node)) :
    withoutAdditionalBelow children =
      children.map fun child => (child.1, child.2.withoutAdditional) := by
  induction children with
  | nil =>
      rfl
  | cons head more ih =>
      obtain ⟨name, node⟩ := head
      rw [withoutAdditionalBelow, ih, List.map_cons]

section Fields

variable (node : Node)

@[simp] theorem base_withoutAdditional :
    node.withoutAdditional.base = node.base := by
  cases node
  rfl

@[simp] theorem test_withoutAdditional :
    node.withoutAdditional.test = node.test := by
  cases node
  rfl

@[simp] theorem useDefault_withoutAdditional :
    node.withoutAdditional.useDefault = node.useDefault := by
  cases node
  rfl

@[simp] theorem resources_withoutAdditional :
    node.withoutAdditional.resources = node.resources := by
  cases node
  rfl

@[simp] theorem additional_withoutAdditional :
    node.withoutAdditional.additional = .empty := by
  cases node
  rfl

theorem children_withoutAdditional :
    node.withoutAdditional.children =
      node.children.map fun child => (child.1, child.2.withoutAdditional) := by
  cases node
  exact withoutAdditionalBelow_eq_map _

theorem mem_children_withoutAdditional_iff
    {name : String} {child : Node} :
    (name, child) ∈ node.withoutAdditional.children ↔
      ∃ full, (name, full) ∈ node.children ∧ full.withoutAdditional = child := by
  simp [children_withoutAdditional]

theorem child?_withoutAdditional
    (name : String) :
    node.withoutAdditional.child? name = (node.child? name).map withoutAdditional := by
  rw [child?, child?, children_withoutAdditional, List.find?_map, Option.map_map, Option.map_map]
  rfl

end Fields

theorem descendant?_withoutAdditional
    (names : List String)
    (node : Node) :
    descendant? names node.withoutAdditional =
      (descendant? names node).map withoutAdditional := by
  induction names generalizing node with
  | nil =>
      rfl
  | cons name names ih =>
      rw [descendant?, descendant?, child?_withoutAdditional]
      cases node.child? name with
      | none =>
          rfl
      | some child =>
          exact ih child

end Node

/-- A catalog without additional tests. -/
def withoutAdditional (catalog : Catalog) : Catalog :=
  ⟨catalog.root.withoutAdditional, catalog.resources⟩

section Catalogs

variable {catalog : Catalog}

theorem node?_withoutAdditional
    (path : String) :
    catalog.withoutAdditional.node? path = (catalog.node? path).map Node.withoutAdditional :=
  Node.descendant?_withoutAdditional (Text.segments path) catalog.root

theorem sameSetup_withoutAdditional :
    SameSetup catalog.withoutAdditional catalog := by
  refine ⟨Node.size_withoutAdditional catalog.root, funext fun path => ?_, rfl⟩
  rw [base?, base?, node?_withoutAdditional]
  cases catalog.node? path with
  | none =>
      rfl
  | some node =>
      exact node.base_withoutAdditional

theorem interfaceTest_withoutAdditional :
    catalog.withoutAdditional.interfaceTest = catalog.interfaceTest := by
  have hsetup := @sameSetup_withoutAdditional catalog
  funext interface
  unfold interfaceTest
  dsimp only
  rw [node?_withoutAdditional]
  cases catalog.node? (interfacePath interface) with
  | none =>
      rfl
  | some node =>
      have hbody : catalog.withoutAdditional.interfaceBody (interfacePath interface)
          node.withoutAdditional = catalog.interfaceBody (interfacePath interface) node := by
        funext base
        unfold interfaceBody
        rw [hsetup.expand_eq, node.test_withoutAdditional]
      dsimp only [Option.map_some]
      rw [hsetup.findResources_eq, hsetup.expand?_eq, node.resources_withoutAdditional,
        node.base_withoutAdditional, hbody]

theorem memberTest_withoutAdditional :
    catalog.withoutAdditional.memberTest = catalog.memberTest := by
  have hsetup := @sameSetup_withoutAdditional catalog
  funext interface member kind
  unfold memberTest
  dsimp only
  rw [node?_withoutAdditional]
  cases catalog.node? (interfacePath interface) with
  | none =>
      rfl
  | some node =>
      have hbody : ∀ path base child,
          catalog.withoutAdditional.memberBody path member kind base
              (Option.map Node.withoutAdditional child) =
            catalog.memberBody path member kind base child := by
        intro path base child
        cases child with
        | none =>
            rfl
        | some child =>
            unfold memberBody childBody
            dsimp only [Option.map_some]
            rw [hsetup.expand_eq, hsetup.expand?_eq, child.useDefault_withoutAdditional,
              child.test_withoutAdditional, child.base_withoutAdditional]
      dsimp only [Option.map_some]
      rw [hsetup.findResources_eq, hsetup.expand?_eq, node.resources_withoutAdditional,
        node.base_withoutAdditional, node.child?_withoutAdditional]
      simp only [hbody]
      cases node.child? member with
      | none =>
          rfl
      | some child =>
          simp only [Option.map_some, child.resources_withoutAdditional]

end Catalogs

/-! ## Additional tests -/

/-- An additional test of a node or of a node right below it. -/
inductive IsAdditional (node : Node) : Subtest → Prop where
  | own {name code : String}
      (h : (name, code) ∈ node.additional.entries) :
      IsAdditional node ⟨name, node, code⟩
  | below {name sub code : String} {child : Node}
      (hchild : (name, child) ∈ node.children)
      (h : (sub, code) ∈ child.additional.entries) :
      IsAdditional node ⟨name ++ "." ++ sub, child, code⟩

/-- The own test of a node right below that stands for no known member. -/
inductive IsOwnTest (known : NameSet) (node : Node) : Subtest → Prop where
  | mk {name test : String} {child : Node}
      (hchild : (name, child) ∈ node.children)
      (htest : child.test = some test)
      (hknown : ¬known.contains name) :
      IsOwnTest known node ⟨name, child, test⟩

section Subtests

variable {catalog : Catalog} {interface : String} {known : NameSet} {node : Node}

theorem mem_childSubtests_iff
    {name : String} {child : Node} {item : Subtest} :
    item ∈ childSubtests known name child ↔
      (∃ test, child.test = some test ∧ ¬known.contains name ∧ item = ⟨name, child, test⟩) ∨
        ∃ entry ∈ child.additional.entries, item = ⟨name ++ "." ++ entry.1, child, entry.2⟩ := by
  rw [childSubtests, List.mem_append]
  refine or_congr ?_ (List.mem_map.trans (by simp only [eq_comm]))
  cases child.test with
  | none =>
      simp
  | some test =>
      by_cases hknown : known.contains name = true
      · simp [hknown]
      · simp [hknown]

/-- The tests below an interface are additional ones and own tests of nodes. -/
theorem mem_subtestsOf_iff
    {item : Subtest} :
    item ∈ subtestsOf known node ↔ IsAdditional node item ∨ IsOwnTest known node item := by
  rw [subtestsOf_eq, List.mem_append, List.mem_map, List.mem_flatMap]
  constructor
  · rintro (⟨entry, hentry, rfl⟩ | ⟨⟨name, child⟩, hchild, hitem⟩)
    · exact Or.inl (.own hentry)
    · rcases mem_childSubtests_iff.1 hitem with ⟨test, htest, hknown, rfl⟩ | ⟨entry, hentry, rfl⟩
      · exact Or.inr (.mk hchild htest hknown)
      · exact Or.inl (.below hchild hentry)
  · rintro (h | h)
    · cases h with
      | own hentry =>
          exact Or.inl ⟨_, hentry, rfl⟩
      | below hchild hentry =>
          exact Or.inr ⟨_, hchild, mem_childSubtests_iff.2 (Or.inr ⟨_, hentry, rfl⟩)⟩
    · obtain ⟨hchild, htest, hknown⟩ := h
      exact Or.inr ⟨_, hchild, mem_childSubtests_iff.2 (Or.inl ⟨_, htest, hknown, rfl⟩)⟩

/-- Without additional tests the own tests of nodes are left. -/
theorem exists_mem_subtestsOf_withoutAdditional_iff
    {path : String} :
    (∃ item ∈ subtestsOf known node.withoutAdditional, item.path = path) ↔
      ∃ item, IsOwnTest known node item ∧ item.path = path := by
  simp only [mem_subtestsOf_iff]
  constructor
  · rintro ⟨item, hadditional | hown, rfl⟩
    · cases hadditional with
      | own h =>
          rw [node.additional_withoutAdditional] at h
          cases h
      | below hchild h =>
          obtain ⟨child, -, rfl⟩ := node.mem_children_withoutAdditional_iff.1 hchild
          rw [child.additional_withoutAdditional] at h
          cases h
    · obtain ⟨hchild, htest, hknown⟩ := hown
      obtain ⟨child, hfull, rfl⟩ := node.mem_children_withoutAdditional_iff.1 hchild
      exact ⟨_, .mk hfull (child.test_withoutAdditional ▸ htest) hknown, rfl⟩
  · rintro ⟨item, ⟨hchild, htest, hknown⟩, rfl⟩
    have hchild' := node.mem_children_withoutAdditional_iff.2 ⟨_, hchild, rfl⟩
    exact ⟨_, Or.inr (.mk hchild' ((Node.test_withoutAdditional _).trans htest) hknown), rfl⟩

theorem child?_of_mem
    {name : String} {child : Node}
    (hordered : node.children.Pairwise fun first second => first.1 < second.1)
    (hchild : (name, child) ∈ node.children) :
    node.child? name = some child := by
  have hget : SortedMap.get? ⟨node.children, hordered⟩ name = some child :=
    SortedMap.get?_eq_some_iff.2 hchild
  exact hget

theorem Node.IsOrdered.withoutAdditional
    (h : node.IsOrdered) :
    node.withoutAdditional.IsOrdered := by
  induction h with
  | @mk node hchildren _ ih =>
      refine ⟨?_, ?_⟩
      · rw [node.children_withoutAdditional]
        exact List.pairwise_map.2 hchildren
      · rintro ⟨name, _⟩ hchild
        obtain ⟨child, hfull, rfl⟩ := node.mem_children_withoutAdditional_iff.1 hchild
        exact ih (name, child) hfull

section Results

variable {results results' : SortedMap Override}

/-- What a catalog gives below an interface without additional tests it also gives with them: an
additional test does not take the place of another one. -/
theorem get?_of_withoutAdditional
    {path : String} {custom : Override}
    (hordered : catalog.IsOrdered)
    (h : Yields (catalog.subtests interface known) results)
    (h' : Yields (catalog.withoutAdditional.subtests interface known) results')
    (hget : results'.get? path = some custom) :
    results.get? path = some custom := by
  have hsetup := @sameSetup_withoutAdditional catalog
  have hmem : path ∈ results'.keys := SortedMap.mem_keys_iff.2 (Option.isSome_of_eq_some hget)
  obtain ⟨node', hnode', hitem⟩ := ((mem_subtests_iff h').2 path).1 hmem
  obtain ⟨node, hnode, rfl⟩ :=
    Option.map_eq_some_iff.1 ((node?_withoutAdditional _).symm.trans hnode')
  obtain ⟨_, hown, rfl⟩ := exists_mem_subtestsOf_withoutAdditional_iff.1 hitem
  cases hown with
  | @mk name test child hchild htest hknown =>
      have hnodes := hordered.node? hnode
      have hfound := child?_of_mem hnodes.children hchild
      have hfound' := (node.child?_withoutAdditional name).trans (congrArg _ hfound)
      obtain ⟨shared, needed, base, code, text, hshared, hneeded, hbase, hcode, htext, hresult⟩ :=
        exists_of_yields_subtests hnode hnodes.children hfound htest hknown h
      obtain ⟨shared', needed', base', code', text', hshared', hneeded', hbase', hcode', htext',
        hresult'⟩ :=
        exists_of_yields_subtests hnode' hnodes.withoutAdditional.children hfound'
          (child.test_withoutAdditional.trans htest) hknown h'
      rw [hsetup.findResources_eq, Node.resources_withoutAdditional] at hshared' hneeded'
      rw [hsetup.expand?_eq, Node.base_withoutAdditional] at hbase'
      rw [hsetup.expand_eq] at hcode'
      cases hshared.symm.trans hshared'
      cases hneeded.symm.trans hneeded'
      cases (holdsOfBodies_orderly.expand? _ node.base).yields_unique hbase hbase'
      cases (orderly_expandWithin _ test).yields_unique hcode hcode'
      cases (orderly_finish _ _).yields_unique htext htext'
      rw [hresult, ← hresult', hget]

/-- What a catalog gives below an interface it also gives without additional tests, or it has the
path of an additional test and comes with what this one needs. -/
theorem mem_keys_or_isAdditional
    {entry : String × Override}
    (h : Yields (catalog.subtests interface known) results)
    (h' : Yields (catalog.withoutAdditional.subtests interface known) results')
    (hentry : entry ∈ results.entries) :
    entry.1 ∈ results'.keys ∨
      ∃ node item, catalog.node? (interfacePath interface) = some node ∧
        IsAdditional node item ∧ item.path = entry.1 ∧
        catalog.Supplies (node.resources ++ item.owner.resources) entry.2.resources := by
  obtain ⟨node, hnode, item, hitem, hpath, hsupplies⟩ := supplies_of_yields_subtests h entry hentry
  rcases mem_subtestsOf_iff.1 hitem with hadditional | hown
  · exact Or.inr ⟨node, item, hnode, hadditional, hpath, hsupplies⟩
  · refine Or.inl (((mem_subtests_iff h').2 _).2 ⟨node.withoutAdditional, ?_, ?_⟩)
    · rw [node?_withoutAdditional, hnode]
      rfl
    · exact exists_mem_subtestsOf_withoutAdditional_iff.2 ⟨item, hown, hpath⟩

end Results

end Subtests

end Catalog
end FeatureProbes
