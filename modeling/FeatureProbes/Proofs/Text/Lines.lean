import FeatureProbes.Text.Lines

/-!
# Texts of one line

A text without line feeds is its only line.  Indentation puts two blanks in front of it, and
trimming keeps it as it is if it ends in something that can be seen.
-/

namespace FeatureProbes
namespace Text

theorem lines_cons
    {c : Char} {rest : List Char}
    (hfeed : c ≠ '\n')
    (hreturn : c = '\r' → rest.head? ≠ some '\n') :
    lines (c :: rest) = consLine c (lines rest) := by
  refine lines.eq_4 c rest hfeed ?_
  rintro more hc rfl
  exact hreturn hc rfl

theorem lines_eq_singleton
    {text : List Char}
    (hne : text ≠ [])
    (hline : '\n' ∉ text) :
    lines text = [text] := by
  fun_induction lines text with
  | case1 =>
      exact absurd rfl hne
  | case2 rest ih =>
      simp at hline
  | case3 rest ih =>
      simp at hline
  | case4 c rest _ _ ih =>
      cases rest with
      | nil =>
          rfl
      | cons d more =>
          rw [ih (by simp) (fun hmem => hline (List.mem_cons_of_mem _ hmem))]
          rfl

/-- A text of one line, not all of it blank, is indented by two blanks. -/
theorem indent_of_single_line
    {text : List Char}
    (hline : '\n' ∉ text)
    (hblank : text.all isBlank = false) :
    indent text = ' ' :: ' ' :: text := by
  have hne : text ≠ [] := by
    rintro rfl
    simp at hblank
  rw [indent, lines_eq_singleton hne hline]
  simp [indentLine, hblank]

/-- What can be seen is kept, and only what is behind it is trimmed. -/
theorem trimEnd_append_cons
    {c : Char}
    (hc : isBlank c = false)
    (before after : List Char) :
    trimEnd (before ++ c :: after) = before ++ c :: trimEnd after := by
  induction before with
  | nil =>
      rw [List.nil_append, List.nil_append, trimEnd, hc]
      cases trimEnd after <;> rfl
  | cons d before ih =>
      rw [List.cons_append, trimEnd, ih]
      cases before <;> rfl

theorem trimEnd_append_singleton
    {c : Char}
    (hc : isBlank c = false)
    (text : List Char) :
    trimEnd (text ++ [c]) = text ++ [c] :=
  trimEnd_append_cons hc text []

end Text
end FeatureProbes
