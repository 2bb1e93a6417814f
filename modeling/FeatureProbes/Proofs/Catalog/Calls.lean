import FeatureProbes.Proofs.Catalog.Difference

/-!
# What a catalog is asked for

A catalog is asked for the test of an interface, for that of a member, and for the tests that
authors wrote below an interface.  Each of these calls is taken apart here once: which node it
finds, which resources, what becomes of the setup code, and how the body of the test is finished.

What was noted before a call has no part in its result, so only results are related.
-/

namespace FeatureProbes
namespace Catalog

open Reporting (Yields)

section Calls

variable {catalog : Catalog} {interface : String}

/-- The code of a test is what its body is finished to, and there is none without a body. -/
def FinishesTo
    (path : String)
    (body test : Option String) : Prop :=
  Option.Rel (fun body code => Yields (finish path body) code) body test

theorem eq_ok_of_yields_ofExcept
    {α : Type} {result : Except BuildError α} {value : α}
    (h : Yields (Reporting.ofExcept result) value) :
    result = .ok value := by
  obtain ⟨before, after, h⟩ := h
  exact (Reporting.gives_ofExcept_iff.1 h).1

theorem eq_of_yields_pure
    {α : Type} {value result : α}
    (h : Yields (pure value : Reporting α) result) :
    value = result := by
  obtain ⟨before, after, h⟩ := h
  exact (Reporting.gives_pure_iff.1 h).1

theorem finishesTo_of_yields_conclude
    {path : String} {resources : Resources} {body : Option String} {result : Override}
    (h : Yields (conclude path resources body) result) :
    ∃ test, FinishesTo path body test ∧ result = ⟨test, resources⟩ := by
  cases body with
  | none =>
      exact ⟨none, .none, (eq_of_yields_pure h).symm⟩
  | some body =>
      obtain ⟨code, hcode, h⟩ := Reporting.yields_bind h
      exact ⟨some code, .some hcode, (eq_of_yields_pure h).symm⟩

/-! ## Interfaces -/

/-- What a catalog says about the test of an interface. -/
inductive InterfaceTested
    (catalog : Catalog)
    (interface : String) :
    Override → Prop where
  | silent
      (hnode : catalog.node? (interfacePath interface) = none) :
      InterfaceTested catalog interface .none
  | resolved {node : Node} {resources : Resources} {base body test : Option String}
      (hnode : catalog.node? (interfacePath interface) = some node)
      (hresources :
        catalog.findResources (interfacePath interface) node.resources = .ok resources)
      (hbase : Yields (catalog.expand? (interfacePath interface) node.base) base)
      (hbody : Yields (catalog.interfaceBody (interfacePath interface) node base) body)
      (htest : FinishesTo (interfacePath interface) body test) :
      InterfaceTested catalog interface ⟨test, resources⟩

theorem interfaceTested_of_yields
    {result : Override}
    (h : Yields (catalog.interfaceTest interface) result) :
    catalog.InterfaceTested interface result := by
  unfold interfaceTest at h
  cases hnode : catalog.node? (interfacePath interface) with
  | none =>
      simp only [hnode] at h
      rw [← eq_of_yields_pure h]
      exact .silent hnode
  | some node =>
      simp only [hnode] at h
      obtain ⟨resources, hresources, h⟩ := Reporting.yields_bind h
      obtain ⟨base, hbase, h⟩ := Reporting.yields_bind h
      obtain ⟨body, hbody, h⟩ := Reporting.yields_bind h
      obtain ⟨test, htest, rfl⟩ := finishesTo_of_yields_conclude h
      exact .resolved hnode (eq_ok_of_yields_ofExcept hresources) hbase hbody htest

/-! ## Members -/

/-- The node of a member below that of its interface. -/
def memberNode?
    (catalog : Catalog)
    (interface member : String) :
    Option Node :=
  (catalog.node? (interfacePath interface)).bind fun node => node.child? member

/-- The resources that a test needs in addition to those of its interface. -/
def ownResources
    (catalog : Catalog)
    (path : String)
    (child : Option Node) :
    Except BuildError Resources :=
  match child with
  | some child => catalog.findResources path child.resources
  | none => .ok .empty

/-- What a catalog says about the test of a member. -/
inductive MemberTested
    (catalog : Catalog)
    (interface member : String)
    (kind : ProbeKind) :
    Override → Prop where
  | silent
      (hnode : catalog.node? (interfacePath interface) = none) :
      MemberTested catalog interface member kind .none
  /-- Constructors are never tested through a catalog. -/
  | constructor
      (hkind : kind = .constructor) :
      MemberTested catalog interface member kind .none
  | resolved {node : Node} {shared own : Resources} {base body test : Option String}
      (hkind : kind ≠ .constructor)
      (hnode : catalog.node? (interfacePath interface) = some node)
      (hshared : catalog.findResources (interfacePath interface) node.resources = .ok shared)
      (hown :
        catalog.ownResources (memberPath interface member) (node.child? member) = .ok own)
      (hbase : Yields (catalog.expand? (interfacePath interface) node.base) base)
      (hbody : Yields
        (catalog.memberBody (memberPath interface member) member kind base (node.child? member))
        body)
      (htest : FinishesTo (memberPath interface member) body test) :
      MemberTested catalog interface member kind ⟨test, shared.union own⟩

/-- A member with a test of its own is tested on the setup code of its interface and its own. -/
theorem exists_of_yields_memberBody
    {path member test : String} {kind : ProbeKind} {base body : Option String} {child : Node}
    (hmark : ¬child.useDefault)
    (htest : child.test = some test)
    (h : Yields (catalog.memberBody path member kind base (some child)) body) :
    ∃ own code, Yields (catalog.expand? path child.base) own ∧
      Yields (catalog.expand path test) code ∧
      body = some (Script.join [base.getD "", own.getD "", code]) := by
  unfold memberBody at h
  dsimp only at h
  rw [if_neg hmark, htest] at h
  obtain ⟨text, htext, h⟩ := Reporting.yields_bind h
  obtain ⟨own, hown, htext⟩ := Reporting.yields_bind htext
  obtain ⟨code, hcode, htext⟩ := Reporting.yields_bind htext
  obtain rfl := eq_of_yields_pure htext
  exact ⟨own, code, hown, hcode, (eq_of_yields_pure h).symm⟩

theorem memberTested_of_yields
    {member : String} {kind : ProbeKind} {result : Override}
    (h : Yields (catalog.memberTest interface member kind) result) :
    catalog.MemberTested interface member kind result := by
  unfold memberTest at h
  cases hnode : catalog.node? (interfacePath interface) with
  | none =>
      simp only [hnode] at h
      rw [← eq_of_yields_pure h]
      exact .silent hnode
  | some node =>
      simp only [hnode] at h
      obtain ⟨shared, hshared, h⟩ := Reporting.yields_bind h
      obtain ⟨base, hbase, h⟩ := Reporting.yields_bind h
      by_cases hkind : kind = .constructor
      · rw [if_pos hkind] at h
        rw [← eq_of_yields_pure h]
        exact .constructor hkind
      · rw [if_neg hkind] at h
        have hown : ∃ own,
            catalog.ownResources (memberPath interface member) (node.child? member) = .ok own ∧
            Yields
              (catalog.memberBody (memberPath interface member) member kind base
                (node.child? member) >>=
                conclude (memberPath interface member) (shared.union own))
              result := by
          cases hchild : node.child? member with
          | none =>
              simp only [hchild] at h
              exact ⟨.empty, rfl, h⟩
          | some child =>
              simp only [hchild] at h
              obtain ⟨own, hown, h⟩ := Reporting.yields_bind h
              exact ⟨own, eq_ok_of_yields_ofExcept hown, h⟩
        obtain ⟨own, hown, h⟩ := hown
        obtain ⟨body, hbody, h⟩ := Reporting.yields_bind h
        obtain ⟨test, htest, rfl⟩ := finishesTo_of_yields_conclude h
        exact .resolved hkind hnode (eq_ok_of_yields_ofExcept hshared) hown hbase hbody htest

/-! ## Tests below interfaces -/

theorem exists_of_yields_subtest
    {base : String} {shared : Resources} {item : Subtest} {entry : String × Override}
    (h : Yields (catalog.subtest (interfacePath interface) base shared item) entry) :
    ∃ own code test,
      catalog.findResources (memberPath interface item.path) item.owner.resources = .ok own ∧
      Yields (catalog.expand (memberPath interface item.path) item.code) code ∧
      Yields (finish (memberPath interface item.path) (Script.join [base, code])) test ∧
      entry = (item.path, ⟨some test, shared.union own⟩) := by
  obtain ⟨own, hown, h⟩ := Reporting.yields_bind h
  obtain ⟨code, hcode, h⟩ := Reporting.yields_bind h
  obtain ⟨test, htest, h⟩ := Reporting.yields_bind h
  exact ⟨own, code, test, eq_ok_of_yields_ofExcept hown, hcode, htest,
    (eq_of_yields_pure h).symm⟩

/-- What a catalog says about the tests that authors wrote below an interface. -/
inductive SubtestsTested
    (catalog : Catalog)
    (interface : String)
    (known : NameSet) :
    SortedMap Override → Prop where
  | silent
      (hnode : catalog.node? (interfacePath interface) = none) :
      SubtestsTested catalog interface known .empty
  | resolved {node : Node} {shared : Resources} {base : Option String}
      {entries : List (String × Override)}
      (hnode : catalog.node? (interfacePath interface) = some node)
      (hshared : catalog.findResources (interfacePath interface) node.resources = .ok shared)
      (hbase : Yields (catalog.expand? (interfacePath interface) node.base) base)
      (hentries : List.Forall₂
        (fun item entry =>
          Yields (catalog.subtest (interfacePath interface) (base.getD "") shared item) entry)
        (subtestsOf known node) entries) :
      SubtestsTested catalog interface known (.ofList entries)

theorem subtestsTested_of_yields
    {known : NameSet} {result : SortedMap Override}
    (h : Yields (catalog.subtests interface known) result) :
    catalog.SubtestsTested interface known result := by
  unfold subtests at h
  cases hnode : catalog.node? (interfacePath interface) with
  | none =>
      simp only [hnode] at h
      rw [← eq_of_yields_pure h]
      exact .silent hnode
  | some node =>
      simp only [hnode] at h
      obtain ⟨shared, hshared, h⟩ := Reporting.yields_bind h
      obtain ⟨base, hbase, h⟩ := Reporting.yields_bind h
      obtain ⟨entries, ⟨before, after, hentries⟩, h⟩ := Reporting.yields_bind h
      rw [← eq_of_yields_pure h]
      exact .resolved hnode (eq_ok_of_yields_ofExcept hshared) hbase hentries.forall₂_of_mapM

/-- The tests that a catalog gives below an interface are those that authors wrote, and each of them
has code. -/
theorem mem_subtests_iff
    {known : NameSet} {results : SortedMap Override}
    (h : Yields (catalog.subtests interface known) results) :
    (∀ entry ∈ results.entries, entry.2.test.isSome) ∧
      ∀ path, path ∈ results.keys ↔
        ∃ node, catalog.node? (interfacePath interface) = some node ∧
          ∃ item ∈ subtestsOf known node, item.path = path := by
  cases subtestsTested_of_yields h with
  | silent hnode =>
      simp [hnode, SortedMap.empty, SortedMap.keys]
  | @resolved node shared base entries hnode hshared hbase hentries =>
      obtain ⟨hvalues, hitems⟩ := Reporting.exists_of_forall₂ hentries
      constructor
      · intro entry hentry
        obtain ⟨item, -, hyields⟩ := hvalues entry (SortedMap.mem_of_mem_entries_ofList hentry)
        obtain ⟨_, _, _, -, -, -, rfl⟩ := exists_of_yields_subtest hyields
        rfl
      · intro path
        rw [SortedMap.mem_keys_ofList_iff, List.mem_map]
        constructor
        · rintro ⟨entry, hentry, rfl⟩
          obtain ⟨item, hitem, hyields⟩ := hvalues entry hentry
          obtain ⟨_, _, _, -, -, -, rfl⟩ := exists_of_yields_subtest hyields
          exact ⟨node, hnode, item, hitem, rfl⟩
        · rintro ⟨found, hfound, item, hitem, rfl⟩
          cases hnode.symm.trans hfound
          obtain ⟨entry, hentry, hyields⟩ := hitems item hitem
          obtain ⟨_, _, _, -, -, -, rfl⟩ := exists_of_yields_subtest hyields
          exact ⟨_, hentry, rfl⟩

end Calls

end Catalog
end FeatureProbes
