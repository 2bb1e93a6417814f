import FeatureProbes.Proofs.Catalog.Calls
import Mathlib.Data.String.Basic

/-!
# Nodes that stand for members and nodes that do not

A node below an interface with a test is asked for as a member if the definition has one of its
name, and else as a test that an author wrote.  Both ways lead to the same resources, and to bodies
that begin with the setup code of the interface and end with the test.  The setup code of the node
itself only stands in the body for a member.
-/

namespace FeatureProbes
namespace Catalog

open Reporting (Yields)

theorem exists_of_forall₂_append_cons
    {α β : Type} {R : α → β → Prop} {front back : List α} {item : α} {values : List β}
    (h : List.Forall₂ R (front ++ item :: back) values) :
    ∃ front' value back', values = front' ++ value :: back' ∧ R item value ∧
      List.Forall₂ R back back' := by
  induction front generalizing values with
  | nil =>
      cases h with
      | @cons _ value _ back' hvalue hback =>
          exact ⟨[], value, back', rfl, hvalue, hback⟩
  | cons head front ih =>
      cases h with
      | @cons _ first _ values hfirst hrest =>
          obtain ⟨front', value, back', rfl, hvalue, hback⟩ := ih hrest
          exact ⟨first :: front', value, back', rfl, hvalue, hback⟩

section Subtests

variable {catalog : Catalog} {interface name : String} {known : NameSet} {node child : Node}

theorem lt_append_dot
    (name below : String) :
    name < name ++ "." ++ below := by
  have htext : (name ++ "." ++ below).toList = name.toList ++ '.' :: below.toList := by
    simp
  rw [String.lt_iff_toList_lt, htext]
  induction name.toList with
  | nil =>
      exact List.nil_lt_cons _ _
  | cons c rest ih =>
      exact List.cons_lt_cons_self.2 ih

/-- No test of a node that comes later has the path of the node. -/
theorem ne_path_of_mem_childSubtests
    {later : String} {item : Subtest}
    (hlater : name < later)
    (hitem : item ∈ childSubtests known later child) :
    name ≠ item.path := by
  rw [childSubtests, List.mem_append] at hitem
  rcases hitem with hitem | hitem
  · have hpath : item.path = later := by
      cases htest : child.test with
      | none =>
          rw [htest] at hitem
          cases hitem
      | some test =>
          rw [htest] at hitem
          dsimp only at hitem
          split at hitem
          · cases hitem
          · rw [List.mem_singleton.1 hitem]
    rw [hpath]
    exact String.ne_of_lt hlater
  · obtain ⟨⟨below, code⟩, -, rfl⟩ := List.mem_map.1 hitem
    rintro rfl
    exact String.lt_irrefl _ (String.lt_trans (lt_append_dot later below) hlater)

/-- Behind the node of some name stand nodes with later names. -/
theorem exists_children_eq
    (hordered : node.children.Pairwise fun first second => first.1 < second.1)
    (hchild : node.child? name = some child) :
    ∃ before after, node.children = before ++ (name, child) :: after ∧
      ∀ later ∈ after, name < later.1 := by
  obtain ⟨⟨found, _⟩, hfind, rfl⟩ := Option.map_eq_some_iff.1 hchild
  obtain ⟨hfound, before, after, hchildren, -⟩ := List.find?_eq_some_iff_append.1 hfind
  obtain rfl : found = name := by
    simpa using hfound
  rw [hchildren, List.pairwise_append, List.pairwise_cons] at hordered
  exact ⟨before, after, hchildren, hordered.2.1.1⟩

/-- A node's own test comes before those that are listed in the node. -/
theorem childSubtests_of_test
    {test : String}
    (htest : child.test = some test)
    (hknown : ¬known.contains name) :
    childSubtests known name child =
      ⟨name, child, test⟩ ::
        child.additional.entries.map fun entry => ⟨name ++ "." ++ entry.1, child, entry.2⟩ := by
  simp [childSubtests, htest, hknown]

theorem subtestsOf_eq :
    subtestsOf known node =
      (node.additional.entries.map fun entry => ⟨entry.1, node, entry.2⟩) ++
        node.children.flatMap fun child => childSubtests known child.1 child.2 :=
  rfl

/-- Of the tests below an interface the last one at the path of a node is that of the node. -/
theorem exists_subtestsOf_eq
    {test : String}
    (hordered : node.children.Pairwise fun first second => first.1 < second.1)
    (hchild : node.child? name = some child)
    (htest : child.test = some test)
    (hknown : ¬known.contains name) :
    ∃ front back, subtestsOf known node = front ++ ⟨name, child, test⟩ :: back ∧
      ∀ item ∈ back, name ≠ item.path := by
  obtain ⟨before, after, hchildren, hlater⟩ := exists_children_eq hordered hchild
  refine ⟨(node.additional.entries.map fun entry => ⟨entry.1, node, entry.2⟩) ++
      before.flatMap fun child => childSubtests known child.1 child.2,
    (child.additional.entries.map fun entry => ⟨name ++ "." ++ entry.1, child, entry.2⟩) ++
      after.flatMap fun child => childSubtests known child.1 child.2, ?_, ?_⟩
  · rw [subtestsOf_eq, hchildren, List.flatMap_append, List.flatMap_cons,
      childSubtests_of_test htest hknown, List.cons_append, List.append_assoc]
  · intro item hitem
    rcases List.mem_append.1 hitem with hitem | hitem
    · obtain ⟨entry, -, rfl⟩ := List.mem_map.1 hitem
      exact String.ne_of_lt (lt_append_dot name entry.1)
    · obtain ⟨later, hmem, hitem⟩ := List.mem_flatMap.1 hitem
      exact ne_path_of_mem_childSubtests (hlater later hmem) hitem

/-- What is made of the node of a member that has a test. -/
theorem exists_of_yields_memberTest
    {test : String} {result : Override}
    (hnode : catalog.node? (interfacePath interface) = some node)
    (hchild : node.child? name = some child)
    (htest : child.test = some test)
    (hmark : ¬child.useDefault)
    (h : Yields (catalog.memberTest interface name .property) result) :
    ∃ shared needed base own code text,
      catalog.findResources (interfacePath interface) node.resources = .ok shared ∧
      catalog.findResources (memberPath interface name) child.resources = .ok needed ∧
      Yields (catalog.expand? (interfacePath interface) node.base) base ∧
      Yields (catalog.expand? (memberPath interface name) child.base) own ∧
      Yields (catalog.expand (memberPath interface name) test) code ∧
      Yields
        (finish (memberPath interface name) (Script.join [base.getD "", own.getD "", code])) text ∧
      result = ⟨some text, shared.union needed⟩ := by
  cases memberTested_of_yields h with
  | silent hnone =>
      cases hnode.symm.trans hnone
  | constructor hkind =>
      cases hkind
  | @resolved node' shared needed base body text hkind hnode' hshared hneeded hbase hbody htext =>
      cases hnode.symm.trans hnode'
      rw [hchild] at hneeded hbody
      obtain ⟨own, code, hown, hcode, rfl⟩ := exists_of_yields_memberBody hmark htest hbody
      cases htext with
      | some htext =>
          exact ⟨shared, needed, base, own, code, _, hshared, hneeded, hbase, hown, hcode, htext,
            rfl⟩

/-- What is made of a node with a test that is none of the known members. -/
theorem exists_of_yields_subtests
    {test : String} {results : SortedMap Override}
    (hnode : catalog.node? (interfacePath interface) = some node)
    (hordered : node.children.Pairwise fun first second => first.1 < second.1)
    (hchild : node.child? name = some child)
    (htest : child.test = some test)
    (hknown : ¬known.contains name)
    (h : Yields (catalog.subtests interface known) results) :
    ∃ shared needed base code text,
      catalog.findResources (interfacePath interface) node.resources = .ok shared ∧
      catalog.findResources (memberPath interface name) child.resources = .ok needed ∧
      Yields (catalog.expand? (interfacePath interface) node.base) base ∧
      Yields (catalog.expand (memberPath interface name) test) code ∧
      Yields (finish (memberPath interface name) (Script.join [base.getD "", code])) text ∧
      results.get? name = some ⟨some text, shared.union needed⟩ := by
  cases subtestsTested_of_yields h with
  | silent hnone =>
      cases hnode.symm.trans hnone
  | @resolved node' shared base entries hnode' hshared hbase hentries =>
      cases hnode.symm.trans hnode'
      obtain ⟨front, back, hitems, hback⟩ := exists_subtestsOf_eq hordered hchild htest hknown
      rw [hitems] at hentries
      obtain ⟨front', entry, back', rfl, hentry, hlater⟩ := exists_of_forall₂_append_cons hentries
      obtain ⟨needed, code, text, hneeded, hcode, htext, rfl⟩ := exists_of_yields_subtest hentry
      -- An entry before this one may have the same path, but none behind it has.
      refine ⟨shared, needed, base, code, text, hshared, hneeded, hbase, hcode, htext, ?_⟩
      refine SortedMap.get?_ofList_append_cons ?_
      intro hmem
      obtain ⟨later, hmem, hsame⟩ := List.mem_map.1 hmem
      obtain ⟨item, hitem, hyields⟩ := (Reporting.exists_of_forall₂ hlater).1 later hmem
      obtain ⟨_, _, _, -, -, -, rfl⟩ := exists_of_yields_subtest hyields
      exact hback item hitem hsame.symm

/-- A node with a test that is none of the known members is tested like a member of its name: with
the same resources, on the setup code of its interface.  But the setup code of the node itself is
left out. -/
theorem subtest_like_memberTest
    {test : String} {member : Override} {subtests : SortedMap Override}
    (hnode : catalog.node? (interfacePath interface) = some node)
    (hordered : node.children.Pairwise fun first second => first.1 < second.1)
    (hchild : node.child? name = some child)
    (htest : child.test = some test)
    (hmark : ¬child.useDefault)
    (hknown : ¬known.contains name)
    (hmember : Yields (catalog.memberTest interface name .property) member)
    (hsubtests : Yields (catalog.subtests interface known) subtests) :
    ∃ base own code memberCode subtestCode,
      Yields (catalog.expand? (interfacePath interface) node.base) base ∧
      Yields (catalog.expand? (memberPath interface name) child.base) own ∧
      Yields (catalog.expand (memberPath interface name) test) code ∧
      Yields (finish (memberPath interface name)
        (Script.join [base.getD "", own.getD "", code])) memberCode ∧
      Yields (finish (memberPath interface name) (Script.join [base.getD "", code])) subtestCode ∧
      member.test = some memberCode ∧
      subtests.get? name = some ⟨some subtestCode, member.resources⟩ := by
  obtain ⟨shared, needed, base, own, code, text, hshared, hneeded, hbase, hown, hcode, htext, rfl⟩ :=
    exists_of_yields_memberTest hnode hchild htest hmark hmember
  obtain ⟨shared', needed', base', code', text', hshared', hneeded', hbase', hcode', htext', hget⟩ :=
    exists_of_yields_subtests hnode hordered hchild htest hknown hsubtests
  cases hshared.symm.trans hshared'
  cases hneeded.symm.trans hneeded'
  cases (holdsOfBodies_orderly.expand? _ node.base).yields_unique hbase hbase'
  cases (orderly_expandWithin _ test).yields_unique hcode hcode'
  exact ⟨base, own, code, text, text', hbase, hown, hcode, htext, htext', rfl, hget⟩

/-- Without setup code of its own a node is tested the same way whether it stands for a member or
not. -/
theorem subtest_eq_memberTest
    {test : String} {member : Override} {subtests : SortedMap Override}
    (hnode : catalog.node? (interfacePath interface) = some node)
    (hordered : node.children.Pairwise fun first second => first.1 < second.1)
    (hchild : node.child? name = some child)
    (htest : child.test = some test)
    (hbase : child.base = none)
    (hmark : ¬child.useDefault)
    (hknown : ¬known.contains name)
    (hmember : Yields (catalog.memberTest interface name .property) member)
    (hsubtests : Yields (catalog.subtests interface known) subtests) :
    subtests.get? name = some member := by
  obtain ⟨base, own, code, memberCode, subtestCode, -, hown, -, hmemberCode, hsubtestCode, hsome,
    hget⟩ :=
    subtest_like_memberTest hnode hordered hchild htest hmark hknown hmember hsubtests
  rw [hbase] at hown
  obtain rfl := eq_of_yields_pure hown
  have hjoin : Script.join [base.getD "", "", code] = Script.join [base.getD "", code] := by
    simp [Script.join, Text.joinSnippets, Text.trimEnd, List.filter_cons]
  rw [Option.getD_none, hjoin] at hmemberCode
  obtain rfl := (orderly_finish _ _).yields_unique hmemberCode hsubtestCode
  rw [hget, ← hsome]

end Subtests

end Catalog
end FeatureProbes
