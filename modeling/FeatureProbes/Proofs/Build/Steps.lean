import FeatureProbes.Build.Document
import FeatureProbes.Proofs.Catalog.Answers

/-!
# Steps of a build

A table is put together from answers of the catalog and from the scopes of definitions and members.
A property that is kept when steps are put together holds of making a table if it holds of the
answers and of finding the scopes.  A build comes to a table if its steps give this table from no
diagnostics.
-/

namespace FeatureProbes
namespace Build

open Catalog (HoldsOfAnswers)
open Probe (CompiledTest Table TestCode)
open Reporting (Gives)
open WebIdl (Definition GlobalMember Merged)

section Steps

variable {P : ∀ α : Type, Reporting α → Prop} {catalog : Catalog}

/-! ## Style properties and built-in objects -/

theorem holdsOf_testAt
    (h : HoldsOfAnswers P catalog)
    (exposure : List String)
    (path : String)
    (code : TestCode) :
    P (String × CompiledTest) (testAt catalog exposure path code) :=
  h.bind (h.test path) fun _ => h.pure _

theorem holdsOf_cssTable
    {spec : SpecProperties} {custom : CustomProperties}
    (h : HoldsOfAnswers P catalog)
    (hknown : ∀ name, P Table (throw (.cssPropertyAlreadyKnown name))) :
    P Table (cssTable spec custom catalog) := by
  unfold cssTable
  cases custom.keys.find? (specNames spec).contains with
  | some name =>
      exact hknown name
  | none =>
      exact h.bind (h.mapM fun item _ => holdsOf_testAt h _ item.1 item.2) fun _ => h.pure _

theorem holdsOf_builtinTable
    (h : HoldsOfAnswers P catalog)
    (builtins : Builtins)
    (exposure : List String) :
    P Table (builtinTable builtins catalog exposure) :=
  h.bind (h.mapM fun item _ => holdsOf_testAt h exposure item.1 item.2) fun _ => h.pure _

/-! ## Interfaces -/

/-- Finding the scopes of members has the property, whatever their attributes are. -/
def HoldsOfNarrowing
    (P : ∀ α : Type, Reporting α → Prop)
    (valid : NameSet) : Prop :=
  ∀ owner member attributes exposure,
    P NameSet (Reporting.ofExcept (narrowExposure owner member attributes exposure valid))

variable {valid : NameSet} {merged : Merged}

theorem holdsOf_memberEntry
    {definition : Definition} {exposure : NameSet}
    (h : HoldsOfAnswers P catalog)
    (hnarrow : HoldsOfNarrowing P valid)
    (member : ProbeMember) :
    P (String × CompiledTest) (memberEntry catalog valid definition exposure member) := by
  refine h.bind (hnarrow _ _ _ _) fun narrowed => ?_
  exact h.bind (h.memberTest _ _ _) fun _ => h.pure _

theorem holdsOf_definitionEntries
    {definition : Definition}
    (h : HoldsOfAnswers P catalog)
    (hnarrow : HoldsOfNarrowing P valid)
    (hexposure : P NameSet (Reporting.ofExcept (definition.exposure valid))) :
    P (List (String × CompiledTest)) (definitionEntries catalog valid definition) := by
  refine h.bind hexposure fun exposure => ?_
  refine h.bind (h.interfaceTest definition.name) fun custom => ?_
  refine h.bind (h.mapM fun member _ => holdsOf_memberEntry h hnarrow member) fun members => ?_
  have hsubtests : P (List (String × CompiledTest)) (subtestEntries catalog definition exposure) :=
    h.bind (h.subtests definition.name _) fun _ => h.pure _
  exact h.bind hsubtests fun _ => h.pure _

theorem holdsOf_globalEntry
    {item : GlobalMember}
    (h : HoldsOfAnswers P catalog)
    (hnarrow : HoldsOfNarrowing P valid)
    (htargets : P NameSet (Reporting.ofExcept (targetExposure merged valid item.targets))) :
    P (List (String × CompiledTest)) (globalEntry catalog valid merged item) := by
  unfold globalEntry
  cases item.member.name with
  | none =>
      exact h.pure []
  | some name =>
      dsimp only
      split
      · exact h.pure []
      · refine h.bind htargets fun exposure => ?_
        refine h.bind (hnarrow _ _ _ _) fun narrowed => ?_
        exact h.bind (h.interfaceTest name) fun _ => h.pure _

theorem holdsOf_apiTests
    (h : HoldsOfAnswers P catalog)
    (hnarrow : HoldsOfNarrowing P valid)
    (hexposure : ∀ definition ∈ merged.definitions, isTested definition →
      P NameSet (Reporting.ofExcept (definition.exposure valid)))
    (htargets : ∀ item ∈ merged.globals,
      P NameSet (Reporting.ofExcept (targetExposure merged valid item.targets))) :
    P Table (apiTests merged valid catalog) := by
  have hdefinitions : ∀ definition ∈ merged.definitions.filter isTested,
      P (List (String × CompiledTest)) (definitionEntries catalog valid definition) := by
    intro definition hdefinition
    obtain ⟨hmem, htested⟩ := List.mem_filter.1 hdefinition
    exact holdsOf_definitionEntries h hnarrow (hexposure definition hmem htested)
  refine h.bind (h.mapM hdefinitions) fun definitions => ?_
  refine h.bind (h.mapM fun item hitem => ?_) fun globals => h.pure _
  exact holdsOf_globalEntry h hnarrow (htargets item hitem)

end Steps

/-! ## What a build comes to -/

theorem ofReporting_eq_ok_iff
    {build : Reporting Table} {output : Output} :
    Output.ofReporting build = .ok output ↔ Gives build [] output.table output.diagnostics := by
  rw [Output.ofReporting, Gives, Reporting.outcome]
  split
  · rename_i table diagnostics hrun
    rw [hrun]
    constructor
    · rintro ⟨⟩
      rfl
    · intro h
      cases h
      rfl
  · rename_i error diagnostics hrun
    rw [hrun]
    constructor
    · rintro ⟨⟩
    · rintro ⟨⟩

end Build
end FeatureProbes
