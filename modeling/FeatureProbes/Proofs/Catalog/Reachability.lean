import FeatureProbes.Proofs.Catalog.ImportCycle
import FeatureProbes.Proofs.Catalog.Splicing

/-!
# Paths that code leads to

The tokens of code name paths, the tokens of the setup code at these paths name further ones, and so
on.  Expanding the imports of code never looks at any other path.  So two catalogs that have the
same setup code wherever the code leads expand it in the same way, whatever else they hold and
however many nodes they have.
-/

namespace FeatureProbes
namespace Catalog

open Reporting (Gives)

/-- Code leads to a path through import tokens: through its own, and then through those of the setup
code at each path that it has come to. -/
inductive Reaches
    (catalog : Catalog)
    (code : String) :
    String → Prop
  | token {target : String}
      (htarget : target ∈ importTargets code) :
      Reaches catalog code target
  | onward {path target : String}
      (hpath : Reaches catalog code path)
      (hnext : catalog.Imports path target) :
      Reaches catalog code target

section Reaches

variable {catalog : Catalog} {code path target base : String}

/-- What the setup code at the target of a token leads to, the code leads to. -/
theorem Reaches.of_base
    (htarget : target ∈ importTargets code)
    (hbase : catalog.base? target = some base)
    (h : catalog.Reaches base path) :
    catalog.Reaches code path := by
  induction h with
  | token hfirst =>
      exact .onward (.token htarget) ⟨base, hbase, hfirst⟩
  | onward _ hnext ih =>
      exact .onward ih hnext

/-- A path that code leads to is the target of a token, or the setup code at such a target leads
to it. -/
theorem reaches_iff :
    catalog.Reaches code path ↔
      path ∈ importTargets code ∨
        ∃ target ∈ importTargets code, ∃ base,
          catalog.base? target = some base ∧ catalog.Reaches base path := by
  constructor
  · intro h
    induction h with
    | token hfirst =>
        exact Or.inl hfirst
    | @onward before target _ hnext ih =>
        refine Or.inr ?_
        rcases ih with hfirst | ⟨first, hfirst, base, hbase, hbelow⟩
        · obtain ⟨base, hbase, htarget⟩ := hnext
          exact ⟨before, hfirst, base, hbase, .token htarget⟩
        · exact ⟨first, hfirst, base, hbase, .onward hbelow hnext⟩
  · rintro (hfirst | ⟨target, htarget, base, hbase, h⟩)
    · exact .token hfirst
    · exact h.of_base htarget hbase

end Reaches

/-- Two catalogs have the same setup code, or none, at every path that code leads to in the first
one. -/
def AgreeFrom (first second : Catalog) (code : String) : Prop :=
  ∀ path, first.Reaches code path → first.base? path = second.base? path

section AgreeFrom

variable {first second : Catalog} {code target base : String}

theorem AgreeFrom.of_base
    (h : AgreeFrom first second code)
    (htarget : target ∈ importTargets code)
    (hbase : first.base? target = some base) :
    AgreeFrom first second base :=
  fun path hpath => h path (hpath.of_base htarget hbase)

theorem AgreeFrom.expandWithin_eq
    (h : AgreeFrom first second code)
    (depth : Nat)
    (visited : List String) :
    expandWithin first depth visited.reverse code =
      expandWithin second depth visited.reverse code := by
  induction depth generalizing visited code with
  | zero =>
      rfl
  | succ depth ih =>
      rw [expandWithin_succ, expandWithin_succ]
      refine congrArg _ (Reporting.mapM_congr fun piece hpiece => ?_)
      cases piece with
      | char c =>
          rfl
      | token token =>
          have htarget := mem_importTargets_iff.2 ⟨token, hpiece, rfl⟩
          have hsame := h _ (.token htarget)
          by_cases hmem : String.ofList token.target ∈ visited
          · rw [expandPiece_of_mem hmem, expandPiece_of_mem hmem]
          · cases hbase : first.base? (String.ofList token.target) with
            | none =>
                rw [expandPiece_of_no_base hmem hbase,
                  expandPiece_of_no_base hmem (hsame.symm.trans hbase)]
            | some base =>
                rw [expandPiece_of_base hmem hbase,
                  expandPiece_of_base hmem (hsame.symm.trans hbase),
                  ih (h.of_base htarget hbase)]

/-- Code is expanded in the same way by two catalogs that agree wherever it leads.  A depth that is
enough for both of them shows it. -/
theorem AgreeFrom.expand_eq
    (h : AgreeFrom first second code)
    (origin : String) :
    first.expand origin code = second.expand origin code := by
  have hdepth : ∀ catalog : Catalog, catalog.root.size ≤ first.root.size + second.root.size →
      catalog.expand origin code =
        expandWithin catalog (first.root.size + second.root.size + 1) [origin] code := by
    intro catalog hsize
    refine expandWithin_eq_of_room (entered_singleton origin) ?_ ?_
    · simp
    · rw [List.length_singleton]
      omega
  have hsame := h.expandWithin_eq (first.root.size + second.root.size + 1) [origin]
  rw [hdepth first (by omega), hdepth second (by omega)]
  exact hsame

end AgreeFrom

end Catalog
end FeatureProbes
