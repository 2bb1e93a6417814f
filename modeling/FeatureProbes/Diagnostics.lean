import FeatureProbes.BuildError

/-!
# Diagnostics

A custom test that is broken does not stop a build; it is noted in a list of diagnostics, and its
place in the table gets a test that throws.  Several members share one snippet, so a diagnostic
that is already in the list is not noted again.
-/

namespace FeatureProbes

/-- A note about a broken custom test. -/
structure Diagnostic where
  code : String
  /-- The path of the test. -/
  path : String
  message : String
  deriving Repr, DecidableEq

/-- The diagnostics of a build, in the order in which they were noted. -/
abbrev Diagnostics := List Diagnostic

namespace Diagnostics

/-- Note a diagnostic, unless it is there already. -/
def report (diagnostics : Diagnostics) (diagnostic : Diagnostic) : Diagnostics :=
  if diagnostic ∈ diagnostics then diagnostics else diagnostics ++ [diagnostic]

/-- A diagnostic that has been noted is in the list. -/
theorem mem_report
    (diagnostics : Diagnostics) (diagnostic : Diagnostic) :
    diagnostic ∈ report diagnostics diagnostic := by
  rw [report]
  split
  · assumption
  · simp

/-- No diagnostic is noted twice. -/
theorem nodup_report
    {diagnostics : Diagnostics} (diagnostic : Diagnostic)
    (h : diagnostics.Nodup) :
    (report diagnostics diagnostic).Nodup := by
  rw [report]
  split
  · exact h
  · rename_i hnot
    refine List.nodup_append.2 ⟨h, by simp, ?_⟩
    intro a ha b hb heq
    rw [List.mem_singleton.1 hb] at heq
    exact hnot (heq ▸ ha)

end Diagnostics

/-- A step of a build: it may note diagnostics, and it may fail.  What was noted before a failure
stays noted. -/
abbrev Reporting (α : Type) := ExceptT BuildError (StateM Diagnostics) α

namespace Reporting

/-- Note a diagnostic. -/
def report (code path message : String) : Reporting Unit :=
  modify fun diagnostics : Diagnostics => diagnostics.report ⟨code, path, message⟩

/-- A step that notes nothing. -/
def ofExcept {α : Type} : Except BuildError α → Reporting α
  | .ok a => pure a
  | .error error => throw error

end Reporting
end FeatureProbes
