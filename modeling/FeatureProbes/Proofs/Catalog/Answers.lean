import FeatureProbes.Catalog.Override
import FeatureProbes.Proofs.Catalog.Expansion

/-!
# Answers of a catalog

What a catalog says about a test is put together from a few steps: resources are found, imports are
expanded, and bodies are finished.  A property that is kept when steps are put together holds of
every answer if it holds of these steps.

Two properties are followed in this way.  Answers are orderly, and they fail for two reasons only:
a resource that is not in the catalog, and imports that come back to where they started.
-/

namespace FeatureProbes
namespace Catalog

open Reporting (Composable FailsFor Orderly)

/-- A property that is kept when steps are put together, and that expanding imports has. -/
structure HoldsOfBodies
    (P : ∀ α : Type, Reporting α → Prop)
    (catalog : Catalog) : Prop extends Composable P where
  expand : ∀ path code, P String (catalog.expand path code)

/-- A property that all steps have of which the answers of a catalog are made. -/
structure HoldsOfAnswers
    (P : ∀ α : Type, Reporting α → Prop)
    (catalog : Catalog) : Prop extends HoldsOfBodies P catalog where
  resources : ∀ path names,
    P Resources (Reporting.ofExcept (catalog.findResources path names))
  malformed : ∀ path message, P Unit (Reporting.report "P-DIAG-MALFORMED" path message)

namespace SameSetup

variable {first second : Catalog}

theorem expand?_eq
    (h : SameSetup first second) :
    first.expand? = second.expand? := by
  funext origin code
  unfold expand?
  rw [h.expand_eq]

theorem findResources_eq
    (h : SameSetup first second) :
    first.findResources = second.findResources := by
  funext path names
  unfold findResources resource?
  rw [h.resources]

end SameSetup

variable {P : ∀ α : Type, Reporting α → Prop} {catalog : Catalog}

/-! ## Bodies -/

section Bodies

theorem HoldsOfBodies.expand?
    (h : HoldsOfBodies P catalog)
    (origin : String)
    (code : Option String) :
    P (Option String) (catalog.expand? origin code) := by
  cases code with
  | none =>
      exact h.pure none
  | some code =>
      exact h.map some (h.expand origin code)

theorem HoldsOfBodies.ownBody
    (h : HoldsOfBodies P catalog)
    (path : String)
    (node : NodeData) :
    P (Option String) (catalog.ownBody path node) := by
  refine h.bind (h.expand? path node.base) fun base => ?_
  refine h.bind (h.expand? path node.test) fun test => ?_
  cases base <;> cases test <;> exact h.pure _

theorem HoldsOfBodies.interfaceBody
    (h : HoldsOfBodies P catalog)
    (path : String)
    (node : Node)
    (base : Option String) :
    P (Option String) (catalog.interfaceBody path node base) := by
  unfold Catalog.interfaceBody
  cases node.test with
  | some test =>
      exact h.bind (h.expand path test) fun _ => h.pure _
  | none =>
      cases base <;> exact h.pure _

theorem HoldsOfBodies.childBody
    (h : HoldsOfBodies P catalog)
    (path : String)
    (base : Option String)
    (child : Node)
    (test : String) :
    P String (catalog.childBody path base child test) := by
  refine h.bind (h.expand? path child.base) fun own => ?_
  exact h.bind (h.expand path test) fun _ => h.pure _

theorem HoldsOfBodies.memberBody
    (h : HoldsOfBodies P catalog)
    (path member : String)
    (kind : ProbeKind)
    (base : Option String)
    (child : Option Node) :
    P (Option String) (catalog.memberBody path member kind base child) := by
  unfold Catalog.memberBody
  cases child with
  | none =>
      exact h.pure _
  | some child =>
      dsimp only
      split
      · exact h.pure _
      · cases child.test with
        | none =>
            exact h.pure _
        | some test =>
            exact h.bind (h.childBody path base child test) fun _ => h.pure _

end Bodies

/-! ## Tests -/

section Tests

/-- The end of a test with the given resources, whose body has been resolved. -/
def conclude
    (path : String)
    (resources : Resources) :
    Option String → Reporting Override
  | .none => return ⟨.none, resources⟩
  | some body => return ⟨some (← finish path body), resources⟩

theorem HoldsOfAnswers.finish
    (h : HoldsOfAnswers P catalog)
    (path body : String) :
    P String (finish path body) := by
  unfold Catalog.finish
  cases Script.fault? (Script.wrap body) with
  | none =>
      exact h.pure _
  | some fault =>
      exact h.bind (h.malformed path _) fun _ => h.pure _

theorem HoldsOfAnswers.conclude
    (h : HoldsOfAnswers P catalog)
    (path : String)
    (resources : Resources)
    (body : Option String) :
    P Override (conclude path resources body) := by
  cases body with
  | none =>
      exact h.pure _
  | some body =>
      exact h.bind (h.finish path body) fun _ => h.pure _

theorem HoldsOfAnswers.test
    (h : HoldsOfAnswers P catalog)
    (path : String) :
    P Override (catalog.test path) := by
  have hdata : P NodeData (Reporting.ofExcept (catalog.data path)) := by
    rw [data]
    cases catalog.node? path with
    | none =>
        exact h.pure _
    | some node =>
        dsimp only
        rw [Reporting.ofExcept_bind]
        exact h.bind (h.resources path node.resources) fun _ => h.pure _
  refine h.bind hdata fun node => ?_
  refine h.bind (h.resources path node.resources) fun resources => ?_
  exact h.bind (h.ownBody path node) (h.conclude path resources)

theorem HoldsOfAnswers.interfaceTest
    (h : HoldsOfAnswers P catalog)
    (interface : String) :
    P Override (catalog.interfaceTest interface) := by
  unfold Catalog.interfaceTest
  dsimp only
  cases catalog.node? (interfacePath interface) with
  | none =>
      exact h.pure _
  | some node =>
      refine h.bind (h.resources _ node.resources) fun resources => ?_
      refine h.bind (h.expand? _ node.base) fun base => ?_
      exact h.bind (h.interfaceBody _ node base) (h.conclude _ resources)

theorem HoldsOfAnswers.memberTest
    (h : HoldsOfAnswers P catalog)
    (interface member : String)
    (kind : ProbeKind) :
    P Override (catalog.memberTest interface member kind) := by
  unfold Catalog.memberTest
  dsimp only
  cases catalog.node? (interfacePath interface) with
  | none =>
      exact h.pure _
  | some node =>
      refine h.bind (h.resources _ node.resources) fun shared => ?_
      refine h.bind (h.expand? _ node.base) fun base => ?_
      split
      · exact h.pure _
      · have hrest : ∀ path child (own : Resources), P Override
            (catalog.memberBody path member kind base child >>=
              Catalog.conclude path (shared.union own)) :=
          fun path child own =>
            h.bind (h.memberBody path member kind base child) (h.conclude path _)
        cases node.child? member with
        | none =>
            exact h.bind (h.pure _) (hrest _ none)
        | some child =>
            exact h.bind (h.resources _ child.resources) (hrest _ (some child))

theorem HoldsOfAnswers.subtest
    (h : HoldsOfAnswers P catalog)
    (owner base : String)
    (shared : Resources)
    (item : Subtest) :
    P (String × Override) (catalog.subtest owner base shared item) := by
  refine h.bind (h.resources _ item.owner.resources) fun own => ?_
  refine h.bind (h.expand _ item.code) fun code => ?_
  exact h.bind (h.finish _ _) fun test => h.pure _

theorem HoldsOfAnswers.subtests
    (h : HoldsOfAnswers P catalog)
    (interface : String)
    (known : NameSet) :
    P (SortedMap Override) (catalog.subtests interface known) := by
  unfold Catalog.subtests
  dsimp only
  cases catalog.node? (interfacePath interface) with
  | none =>
      exact h.pure _
  | some node =>
      refine h.bind (h.resources _ node.resources) fun shared => ?_
      refine h.bind (h.expand? _ node.base) fun base => ?_
      exact h.bind (h.mapM fun item _ => h.subtest _ _ shared item) fun _ => h.pure _

end Tests

/-! ## Diagnostics -/

section Orderly

theorem holdsOfBodies_orderly :
    HoldsOfBodies (fun _ => Orderly IsImportNote) catalog :=
  ⟨Reporting.composable_orderly _, fun path code => orderly_expandWithin [path] code⟩

theorem holdsOfAnswers_orderly :
    HoldsOfAnswers (fun _ => Orderly fun _ => True) catalog where
  toComposable := Reporting.composable_orderly _
  expand path code := (orderly_expandWithin [path] code).mono fun _ _ => trivial
  resources _ _ := Reporting.orderly_ofExcept _
  malformed _ _ := Reporting.orderly_report trivial

/-- The end of a test does not ask the catalog. -/
theorem orderly_finish
    (path body : String) :
    Orderly (fun _ => True) (finish path body) :=
  (@holdsOfAnswers_orderly .empty).finish path body

theorem orderly_conclude
    (path : String)
    (resources : Resources)
    (body : Option String) :
    Orderly (fun _ => True) (conclude path resources body) :=
  (@holdsOfAnswers_orderly .empty).conclude path resources body

end Orderly

/-! ## Failures -/

/-- The reasons for which a catalog does not answer. -/
inductive IsRefusal : BuildError → Prop where
  | resource (name path : String) :
      IsRefusal (.undefinedResource name path)
  | cycle (path : String) (chain : List String) :
      IsRefusal (.cyclicImport path chain)

section Failures

theorem failsFor_expandWithin
    {depth : Nat}
    (chain : List String)
    (code : String) :
    FailsFor IsRefusal (expandWithin catalog depth chain code) := by
  induction depth generalizing chain code with
  | zero =>
      intro before error after hfails
      rw [← (Reporting.fails_throw_iff.1 hfails).1]
      exact .cycle _ _
  | succ depth ih =>
      have hsteps := Reporting.composable_failsFor IsRefusal
      rw [expandWithin_succ]
      refine hsteps.map _ (hsteps.mapM fun piece _ => ?_)
      intro before error after hfails
      rw [← chain.reverse_reverse] at hfails
      obtain ⟨token, -, ⟨-, rfl⟩ | ⟨-, base, -, hfails⟩⟩ := exists_token_of_fails hfails
      · exact .cycle _ _
      · exact ih _ base before error after hfails

theorem failsFor_findResources
    (path : String)
    (names : List String) :
    FailsFor IsRefusal (Reporting.ofExcept (catalog.findResources path names)) := by
  have hsteps := Reporting.composable_failsFor IsRefusal
  rw [findResources, Reporting.ofExcept_bind, Reporting.ofExcept_mapM]
  refine hsteps.bind (hsteps.mapM fun name _ => ?_) fun entries => hsteps.pure _
  rw [Reporting.failsFor_ofExcept_iff]
  intro error herror
  split at herror
  · cases herror
  · cases herror
    exact .resource name path

theorem holdsOfAnswers_failsFor
    {reason : BuildError → Prop}
    (h : ∀ error, IsRefusal error → reason error) :
    HoldsOfAnswers (fun _ => FailsFor reason) catalog where
  toComposable := Reporting.composable_failsFor reason
  expand path code := (failsFor_expandWithin [path] code).mono h
  resources path names := (failsFor_findResources path names).mono h
  malformed _ _ := Reporting.failsFor_report _ _ _

end Failures

end Catalog
end FeatureProbes
