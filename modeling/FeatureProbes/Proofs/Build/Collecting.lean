import FeatureProbes.Proofs.Build.Steps

/-!
# Diagnostics of many calls

One list of diagnostics goes through many calls: catalogs are asked for tests, imports are expanded,
and tables are made.  What a call that fails has noted stays noted, and the next call goes on from
there.

Every call is an orderly step.  So nothing that was noted is lost or moved, nothing is noted twice,
and a call that is made again comes to what it came to before and notes nothing more, whatever was
called in between.
-/

namespace FeatureProbes

/-- Noting diagnostics that are all there changes nothing. -/
theorem Diagnostics.reportAll_of_subset
    {diagnostics notes : Diagnostics}
    (h : notes ⊆ diagnostics) :
    diagnostics.reportAll notes = diagnostics := by
  obtain ⟨added, heq, -, hnew⟩ := exists_reportAll_eq_append diagnostics notes
  cases added with
  | nil =>
      rw [heq, List.append_nil]
  | cons note added =>
      have hmem : note ∈ diagnostics.reportAll notes := by
        rw [heq]
        simp
      exact absurd ((mem_reportAll_iff.1 hmem).elim id (h ·)) (hnew note List.mem_cons_self)

/-! ## One step -/

namespace Reporting

variable {α : Type} {allowed : Diagnostic → Prop} {step : Reporting α}

theorem Orderly.isPrefix_outcome
    (h : Orderly allowed step)
    (before : Diagnostics) :
    before <+: (step.outcome before).2 := by
  obtain ⟨added, hadded, -⟩ := h.adds before
  exact ⟨added, hadded.symm⟩

theorem Orderly.nodup_outcome
    {before : Diagnostics}
    (h : Orderly allowed step)
    (hnodup : before.Nodup) :
    (step.outcome before).2.Nodup := by
  rw [h.collects]
  exact Diagnostics.nodup_reportAll _ hnodup

/-- Where all that a step has noted is still there, the step comes to the same and notes nothing. -/
theorem Orderly.outcome_again
    {before later : Diagnostics}
    (h : Orderly allowed step)
    (hlater : (step.outcome before).2 <+: later) :
    step.outcome later = ((step.outcome before).1, later) := by
  refine Prod.ext (h.steady later before) ?_
  rw [h.collects later]
  refine Diagnostics.reportAll_of_subset fun note hnote => hlater.subset ?_
  rw [h.collects before]
  exact Diagnostics.mem_reportAll_iff.2 (Or.inr hnote)

end Reporting

namespace Build

open Catalog (Override holdsOfAnswers_orderly)
open Probe (Table)
open Reporting (Gives Orderly)

/-! ## Calls -/

/-- A call that goes on with a list of diagnostics. -/
inductive Call where
  | report (code path message : String)
  | test (catalog : Catalog) (path : String)
  | interfaceTest (catalog : Catalog) (interface : String)
  | memberTest (catalog : Catalog) (interface member : String) (kind : ProbeKind)
  | subtests (catalog : Catalog) (interface : String) (known : NameSet)
  | expand (catalog : Catalog) (origin code : String)
  | apiTests (catalog : Catalog) (merged : WebIdl.Merged) (valid : NameSet)
  | cssTable (catalog : Catalog) (spec : SpecProperties) (custom : CustomProperties)
  | builtinTable (catalog : Catalog) (builtins : Builtins) (exposure : List String)

namespace Call

/-- What a call gives if it does not fail. -/
def Result : Call → Type
  | report .. => Unit
  | test .. => Override
  | interfaceTest .. => Override
  | memberTest .. => Override
  | subtests .. => SortedMap Override
  | expand .. => String
  | apiTests .. => Table
  | cssTable .. => Table
  | builtinTable .. => Table

def step : (call : Call) → Reporting call.Result
  | report code path message => Reporting.report code path message
  | test catalog path => catalog.test path
  | interfaceTest catalog interface => catalog.interfaceTest interface
  | memberTest catalog interface member kind => catalog.memberTest interface member kind
  | subtests catalog interface known => catalog.subtests interface known
  | expand catalog origin code => catalog.expand origin code
  | apiTests catalog merged valid => Build.apiTests merged valid catalog
  | cssTable catalog spec custom => Build.cssTable spec custom catalog
  | builtinTable catalog builtins exposure => Build.builtinTable builtins catalog exposure

/-- The diagnostics after a call, whether it fails or not. -/
def after (before : Diagnostics) (call : Call) : Diagnostics :=
  (call.step.outcome before).2

/-- The diagnostics after calls that are made one after the other. -/
def afterAll (start : Diagnostics) (calls : List Call) : Diagnostics :=
  calls.foldl after start

theorem afterAll_append
    (start : Diagnostics)
    (first second : List Call) :
    afterAll start (first ++ second) = afterAll (afterAll start first) second :=
  List.foldl_append

theorem orderly_step
    (call : Call) :
    Orderly (fun _ => True) call.step := by
  cases call with
  | report code path message =>
      exact Reporting.orderly_report trivial
  | test catalog path =>
      exact holdsOfAnswers_orderly.test path
  | interfaceTest catalog interface =>
      exact holdsOfAnswers_orderly.interfaceTest interface
  | memberTest catalog interface member kind =>
      exact holdsOfAnswers_orderly.memberTest interface member kind
  | subtests catalog interface known =>
      exact holdsOfAnswers_orderly.subtests interface known
  | expand catalog origin code =>
      exact holdsOfAnswers_orderly.expand origin code
  | apiTests catalog merged valid =>
      exact holdsOf_apiTests holdsOfAnswers_orderly (fun _ _ _ _ => Reporting.orderly_ofExcept _)
        (fun _ _ _ => Reporting.orderly_ofExcept _) fun _ _ => Reporting.orderly_ofExcept _
  | cssTable catalog spec custom =>
      exact holdsOf_cssTable holdsOfAnswers_orderly fun _ => Reporting.orderly_throw _
  | builtinTable catalog builtins exposure =>
      exact holdsOf_builtinTable holdsOfAnswers_orderly builtins exposure

/-! ## Runs -/

/-- Calls leave what was noted before them, in its place. -/
theorem isPrefix_afterAll
    (start : Diagnostics)
    (calls : List Call) :
    start <+: afterAll start calls := by
  induction calls generalizing start with
  | nil =>
      exact List.prefix_refl start
  | cons call calls ih =>
      exact (call.orderly_step.isPrefix_outcome start).trans (ih (after start call))

theorem nodup_afterAll
    {start : Diagnostics}
    (h : start.Nodup)
    (calls : List Call) :
    (afterAll start calls).Nodup := by
  induction calls generalizing start with
  | nil =>
      exact h
  | cons call calls ih =>
      exact ih (call.orderly_step.nodup_outcome h)

/-- Along every run of calls, what was noted before a call begins what is noted after it, nothing is
noted twice, and a call that gave a value gives this value again at any later time and notes
nothing. -/
theorem afterAll_appendOnly
    (start : Diagnostics)
    (front : List Call)
    (call : Call) :
    afterAll start front <+: afterAll start (front ++ [call]) ∧
      (start.Nodup → (afterAll start front).Nodup) ∧
      ∀ (between : List Call) (value : call.Result),
        Gives call.step (afterAll start front) value (afterAll start (front ++ [call])) →
          Gives call.step (afterAll start (front ++ call :: between)) value
            (afterAll start (front ++ call :: between)) := by
  refine ⟨?_, fun h => nodup_afterAll h front, fun between value hgives => ?_⟩
  · rw [afterAll_append]
    exact isPrefix_afterAll _ [call]
  · have hlater : (call.step.outcome (afterAll start front)).2 <+:
        afterAll start (front ++ call :: between) := by
      rw [afterAll_append]
      exact isPrefix_afterAll _ between
    have hagain := call.orderly_step.outcome_again hlater
    rw [hgives] at hagain
    exact hagain

/-- A catalog with a test that is no script. -/
def stall : Catalog where
  root :=
    { Catalog.Node.empty with
      children :=
        [("api",
          { Catalog.Node.empty with
            children := [("A", { Catalog.Node.empty with test := some ")" })] })] }
  resources := .empty

/-- A note, an import of a node that is not there, and a property that is listed twice, for which no
table can be made. -/
def errands : List Call :=
  [.report "P-DIAG-MALFORMED" "api.B" "Test is malformed: Unexpected token",
    .expand stall "api.B" "<%api.C:door%>",
    .cssTable stall (.ofList [("css", ["zoom"])]) (.ofList [("zoom", ⟨[], .empty⟩)])]

/-- The test that is no script is noted.  Asked for again after the errands it is replaced by the
same code, and the three notes stay as they are. -/
theorem afterAll_errands :
    let ask : Call := .test stall "api.A"
    ([] : Diagnostics).Nodup ∧
      ∃ value : Override, Gives ask.step [] value (afterAll [] [ask]) ∧
        (afterAll [] [ask]).length = 1 ∧ [] <+: afterAll [] [ask] ∧
        (afterAll [] (ask :: errands)).length = 3 ∧ (afterAll [] (ask :: errands)).Nodup ∧
        Gives ask.step (afterAll [] (ask :: errands)) value (afterAll [] (ask :: errands)) := by
  intro ask
  have hrun : (Reporting.result? ask.step).isSome ∧ (afterAll [] [ask]).length = 1 ∧
      (afterAll [] (ask :: errands)).length = 3 := by
    decide +kernel
  obtain ⟨value, hvalue⟩ := Option.isSome_iff_exists.1 hrun.1
  obtain ⟨after, hgives⟩ := Reporting.exists_gives_of_result? hvalue
  obtain rfl : afterAll [] [ask] = after := congrArg Prod.snd hgives
  obtain ⟨hbefore, -, hagain⟩ := afterAll_appendOnly [] [] ask
  obtain ⟨-, hnodup, -⟩ := afterAll_appendOnly [] (ask :: errands) ask
  exact ⟨List.nodup_nil, value, hgives, hrun.2.1, hbefore, hrun.2.2, hnodup List.nodup_nil,
    hagain errands value hgives⟩

end Call
end Build
end FeatureProbes
