import FeatureProbes.Proofs.Catalog.Calls
import FeatureProbes.Proofs.Script.Declaring

/-!
# Which code stands for a member

A member keeps the test that is made without the catalog if it is a constructor, if its node says
so, or if nothing in the catalog is about it: it has no test of its own, and either there is no
setup code or the member is reached without an instance.

In all other cases the catalog gives the body of the test.  It is the setup code of the interface,
that of the member's node, and the test of this node; or the setup code of the interface and an
assertion about its instance.
-/

namespace FeatureProbes
namespace Catalog

open Reporting (Yields)
open Script (IsScriptThat)

/-! ## Assertions about instances -/

/-- The end of a test that asserts something about the instance of its setup code.  Nothing is said
of setup code that binds `promise` by a variable statement of its own, but only in a pattern. -/
structure Ends (base assertion ending : String) : Prop where
  promised :
    IsScriptThat (·.DeclaresVariable "promise") base →
      ending = instanceAssertion ⟨true, false⟩ assertion
  called :
    ¬IsScriptThat (·.BindsVariable "promise") base →
      IsScriptThat (·.UsesUnbound "callback") base →
        ending = instanceAssertion ⟨false, true⟩ assertion
  returned :
    ¬IsScriptThat (·.BindsVariable "promise") base →
      ¬IsScriptThat (·.UsesUnbound "callback") base →
        ending = instanceAssertion .plain assertion

theorem ends_instanceAssertion
    (base assertion : String) :
    Ends base assertion (instanceAssertion (Script.Shape.ofCode base) assertion) := by
  have hpromise : ¬IsScriptThat (·.BindsVariable "promise") base →
      (Script.Shape.ofCode base).promise = false := by
    intro hnone
    rw [← Bool.not_eq_true, Script.promise_ofCode_iff]
    rintro ⟨tree, hparse, hdeclares⟩
    exact hnone ⟨tree, hparse, hdeclares.bindsVariable⟩
  refine ⟨?_, ?_, ?_⟩
  · intro h
    rw [← Script.promise_ofCode_iff] at h
    simp [instanceAssertion, h]
  · intro hnone h
    rw [← Script.callback_ofCode_iff] at h
    simp [instanceAssertion, hpromise hnone, h]
  · intro hnone h
    rw [← Script.callback_ofCode_iff, Bool.not_eq_true] at h
    simp [instanceAssertion, hpromise hnone, h, Script.Shape.plain]

section Members

variable {catalog : Catalog} {interface member : String} {kind : ProbeKind}

/-! ## Members -/

/-- The test that is made without the catalog stands for a member. -/
inductive KeepsDefault
    (catalog : Catalog)
    (interface member : String)
    (kind : ProbeKind) :
    Prop where
  | constructor
      (hkind : kind = .constructor) :
      KeepsDefault catalog interface member kind
  | marked {child : Node}
      (hchild : catalog.memberNode? interface member = some child)
      (hmark : child.useDefault) :
      KeepsDefault catalog interface member kind
  | untested
      (htest : (catalog.memberNode? interface member).bind Node.test = none)
      (hbase : kind = .static ∨ catalog.base? (interfacePath interface) = none) :
      KeepsDefault catalog interface member kind

/-- A body that the catalog gives for the test of a member. -/
inductive GivesBody
    (catalog : Catalog)
    (interface member : String)
    (kind : ProbeKind) :
    String → Prop where
  | tested {child : Node} {test code : String} {base own : Option String}
      (hchild : catalog.memberNode? interface member = some child)
      (htest : child.test = some test)
      (hbase : Yields
        (catalog.expand? (interfacePath interface) (catalog.base? (interfacePath interface))) base)
      (hown : Yields (catalog.expand? (memberPath interface member) child.base) own)
      (hcode : Yields (catalog.expand (memberPath interface member) test) code) :
      GivesBody catalog interface member kind (Script.join [base.getD "", own.getD "", code])
  | asserted {setup base ending : String}
      (htest : (catalog.memberNode? interface member).bind Node.test = none)
      (hsetup : catalog.base? (interfacePath interface) = some setup)
      (hbase : Yields (catalog.expand (interfacePath interface) setup) base)
      (hends : Ends base (memberAssertion kind member) ending) :
      GivesBody catalog interface member kind (Script.join [base, ending])

theorem yields_expand?_iff
    {origin : String} {code result : Option String} :
    Yields (catalog.expand? origin code) result ↔
      Option.Rel (fun code text => Yields (catalog.expand origin code) text) code result := by
  cases code with
  | none =>
      constructor
      · intro h
        rw [← eq_of_yields_pure h]
        exact .none
      · rintro ⟨⟩
        exact ⟨[], [], rfl⟩
  | some code =>
      constructor
      · rintro ⟨before, after, h⟩
        obtain ⟨text, htext, rfl⟩ := Reporting.gives_map_iff.1 h
        exact .some htext.yields
      · rintro ⟨before, after, h⟩
        exact ⟨before, after, Reporting.gives_map_iff.2 ⟨_, h, rfl⟩⟩

/-- Without a test of its own a member is tested on the instance of its interface, unless there is
none or the member is reached without one. -/
theorem inheritedBody_cases
    {base : Option String}
    (hkind : kind ≠ .constructor)
    (htest : (catalog.memberNode? interface member).bind Node.test = none)
    (hmark : ∀ child, catalog.memberNode? interface member = some child → ¬child.useDefault)
    (hbase : Yields
      (catalog.expand? (interfacePath interface) (catalog.base? (interfacePath interface))) base) :
    (catalog.KeepsDefault interface member kind ∧ inheritedBody kind member base = none) ∨
      ¬catalog.KeepsDefault interface member kind ∧
        ∃ body, inheritedBody kind member base = some body ∧
          catalog.GivesBody interface member kind body := by
  rw [yields_expand?_iff] at hbase
  generalize hsetup : catalog.base? (interfacePath interface) = setup at hbase
  cases hbase with
  | none =>
      exact Or.inl ⟨.untested htest (Or.inr hsetup), by simp [inheritedBody]⟩
  | @some setup base hbase =>
      by_cases hstatic : kind = .static
      · exact Or.inl ⟨.untested htest (Or.inl hstatic), by simp [inheritedBody, hstatic]⟩
      · refine Or.inr ⟨?_, _, if_neg hstatic, ?_⟩
        · intro hkeeps
          cases hkeeps with
          | constructor h =>
              exact hkind h
          | marked hchild hmarked =>
              exact hmark _ hchild hmarked
          | untested _ h =>
              rcases h with h | h
              · exact hstatic h
              · rw [hsetup] at h
                cases h
        · exact .asserted htest hsetup hbase (ends_instanceAssertion base _)

/-- The body of the test of a member is resolved just where the member does not keep the test that
is made without the catalog. -/
theorem memberBody_cases
    {node : Node} {base body : Option String}
    (hkind : kind ≠ .constructor)
    (hnode : catalog.node? (interfacePath interface) = some node)
    (hbase : Yields (catalog.expand? (interfacePath interface) node.base) base)
    (hbody : Yields
      (catalog.memberBody (memberPath interface member) member kind base (node.child? member))
      body) :
    (catalog.KeepsDefault interface member kind ∧ body = none) ∨
      ¬catalog.KeepsDefault interface member kind ∧
        ∃ text, body = some text ∧ catalog.GivesBody interface member kind text := by
  have hchild : catalog.memberNode? interface member = node.child? member := by
    rw [memberNode?, hnode, Option.bind_some]
  have hsetup : catalog.base? (interfacePath interface) = node.base := by
    rw [base?, hnode, Option.bind_some]
  rw [← hsetup] at hbase
  cases hfound : node.child? member with
  | none =>
      rw [hfound] at hchild hbody
      obtain rfl := eq_of_yields_pure hbody
      exact inheritedBody_cases hkind (by rw [hchild]; rfl) (by simp [hchild]) hbase
  | some child =>
      rw [hfound] at hchild hbody
      by_cases hmark : child.useDefault
      · unfold memberBody at hbody
        dsimp only at hbody
        rw [if_pos hmark] at hbody
        exact Or.inl ⟨.marked hchild hmark, (eq_of_yields_pure hbody).symm⟩
      · cases htest : child.test with
        | none =>
            unfold memberBody at hbody
            dsimp only at hbody
            rw [if_neg hmark, htest] at hbody
            obtain rfl := eq_of_yields_pure hbody
            refine inheritedBody_cases hkind ?_ ?_ hbase
            · rw [hchild, Option.bind_some, htest]
            · intro other hother
              cases hchild.symm.trans hother
              exact hmark
        | some test =>
            obtain ⟨own, code, hown, hcode, rfl⟩ := exists_of_yields_memberBody hmark htest hbody
            refine Or.inr ⟨?_, _, rfl, .tested hchild htest hbase hown hcode⟩
            intro hkeeps
            cases hkeeps with
            | constructor h =>
                exact hkind h
            | marked hother hmarked =>
                cases hchild.symm.trans hother
                exact hmark hmarked
            | untested h _ =>
                rw [hchild, Option.bind_some, htest] at h
                cases h

/-- The catalog gives code for a member just where the member does not keep its default, and then
this code is what the body of its test is finished to. -/
theorem memberTest_cases
    {result : Override}
    (h : Yields (catalog.memberTest interface member kind) result) :
    (catalog.KeepsDefault interface member kind ∧ result.test = none) ∨
      ¬catalog.KeepsDefault interface member kind ∧
        ∃ body code, catalog.GivesBody interface member kind body ∧
          Yields (finish (memberPath interface member) body) code ∧ result.test = some code := by
  cases memberTested_of_yields h with
  | silent hnode =>
      refine Or.inl ⟨.untested ?_ (Or.inr ?_), rfl⟩
      · rw [memberNode?, hnode]
        rfl
      · rw [base?, hnode]
        rfl
  | constructor hkind =>
      exact Or.inl ⟨.constructor hkind, rfl⟩
  | resolved hkind hnode _ _ hbase hbody htest =>
      rcases memberBody_cases hkind hnode hbase hbody with ⟨hkeeps, rfl⟩ | ⟨hgives, text, rfl, htext⟩
      · cases htest
        exact Or.inl ⟨hkeeps, rfl⟩
      · cases htest with
        | some hcode =>
            exact Or.inr ⟨hgives, text, _, htext, hcode, rfl⟩

end Members

/-! ## Interfaces -/

/-- A catalog has a test or setup code for an interface. -/
def HasCode
    (catalog : Catalog)
    (interface : String) :
    Prop :=
  ∃ node, catalog.node? (interfacePath interface) = some node ∧
    (node.test.isSome ∨ node.base.isSome)

/-- The catalog gives code for an interface just where it has some, and then this code is what the
body of the interface's test is finished to. -/
theorem interfaceTest_cases
    {catalog : Catalog} {interface : String} {result : Override}
    (h : Yields (catalog.interfaceTest interface) result) :
    (¬catalog.HasCode interface ∧ result.test = none) ∨
      catalog.HasCode interface ∧
        ∃ body code, catalog.ResolvesInterface interface body ∧
          Yields (finish (interfacePath interface) body) code ∧ result.test = some code := by
  cases interfaceTested_of_yields h with
  | silent hnode =>
      refine Or.inl ⟨?_, rfl⟩
      rintro ⟨node, hfound, -⟩
      rw [hnode] at hfound
      cases hfound
  | @resolved node resources base body test hnode hresources hbase hbody htest =>
      have hcode : catalog.HasCode interface ↔ node.test.isSome ∨ node.base.isSome := by
        constructor
        · rintro ⟨other, hother, hcode⟩
          cases hnode.symm.trans hother
          exact hcode
        · intro hcode
          exact ⟨node, hnode, hcode⟩
      have hsome : (node.test.isSome ∨ node.base.isSome) ↔ body.isSome := by
        unfold interfaceBody at hbody
        rw [yields_expand?_iff] at hbase
        generalize node.test = own, node.base = setup at hbase hbody ⊢
        cases own with
        | some own =>
            obtain ⟨text, -, hbody⟩ := Reporting.yields_bind hbody
            obtain rfl := eq_of_yields_pure hbody
            simp
        | none =>
            cases hbase with
            | none =>
                obtain rfl := eq_of_yields_pure hbody
                simp
            | some hbase =>
                obtain rfl := eq_of_yields_pure hbody
                simp
      rw [hcode, hsome]
      cases htest with
      | none =>
          exact Or.inl ⟨by simp, rfl⟩
      | some htest =>
          exact Or.inr ⟨rfl, _, _, ⟨node, base, hnode, hbase, hbody⟩, htest, rfl⟩

end Catalog
end FeatureProbes
