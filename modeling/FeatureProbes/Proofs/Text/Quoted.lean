import FeatureProbes.Script.StringLiteral
import FeatureProbes.Text.Lines
import FeatureProbes.Text.Quoted
import Mathlib.Tactic.SplitIfs

/-!
# Quoted text

A quoted text is read back as it was: the reader of strings takes all of it up to the closing
quote and gives the text between the quotes.  Quoted text has no line feed, so it stays in one
line and indentation only puts blanks in front of it.
-/

namespace FeatureProbes

namespace Text

theorem hexValue?_hexDigit
    {n : Nat}
    (h : n < 16) :
    hexValue? (hexDigit n) = some n := by
  revert n
  decide

theorem hexDigit_ne_newline
    {n : Nat}
    (h : n < 16) :
    hexDigit n ≠ '\n' := by
  revert n
  decide

theorem newline_not_mem_escapeChar
    (c : Char) :
    '\n' ∉ escapeChar c := by
  unfold escapeChar
  split_ifs with h₁ h₂ h₃ h₄ h₅ h₆ h₇ h₈
  all_goals try decide
  · have hhigh := hexDigit_ne_newline (n := c.toNat / 16) (by omega)
    have hlow := hexDigit_ne_newline (n := c.toNat % 16) (by omega)
    simp [hhigh.symm, hlow.symm]
  · simpa using Ne.symm h₅

/-- Quoted text has no line feed. -/
theorem newline_not_mem_quote
    (text : List Char) :
    '\n' ∉ quote text := by
  simp only [quote, List.mem_cons, List.mem_append, List.mem_flatMap, List.not_mem_nil, or_false]
  rintro (h | ⟨c, -, h⟩ | h)
  · exact absurd h (by decide)
  · exact newline_not_mem_escapeChar c h
  · exact absurd h (by decide)

end Text

namespace Script

/-- An escaped character is read as the character. -/
theorem readText_escapeChar
    (c : Char)
    (rest : List Char) :
    readText false '"' .plain (Text.escapeChar c ++ rest) =
      let read := readText false '"' .plain rest
      ⟨Text.escapeChar c ++ read.spelling, c :: read.value, read.bad, read.ending, read.rest⟩ := by
  unfold Text.escapeChar
  split_ifs with h₁ h₂ h₃ h₄ h₅ h₆ h₇ h₈
  · subst h₁
    rfl
  · subst h₂
    rfl
  · subst h₃
    rfl
  · subst h₄
    rfl
  · subst h₅
    rfl
  · subst h₆
    rfl
  · subst h₇
    rfl
  · have hhigh := Text.hexValue?_hexDigit (n := c.toNat / 16) (by omega)
    have hlow := Text.hexValue?_hexDigit (n := c.toNat % 16) (by omega)
    have hvalue : c.toNat / 16 * 16 + c.toNat % 16 = c.toNat := by
      omega
    have hunit : unitStep none c.toNat = ⟨.plain, [c], false⟩ := by
      have hnot : isHighSurrogate c.toNat = false := by
        simp [isHighSurrogate]
        omega
      have hchar : unitChar c.toNat = c := by
        rw [unitChar, if_neg (by simp; omega), Char.ofNat_toNat]
      simp [unitStep, hnot, hchar]
    have hzero : Text.hexValue? '0' = some 0 := by
      rfl
    simp [readText, escapeStep?, startedStep, escapeEnd, TextRead.cons, hzero, hhigh, hlow, hvalue,
      hunit]
  · simp [readText, escapeStep?, escapeEnd, TextRead.cons, h₁, h₂, h₅, h₆]

/-- A text that is quoted is read as it was, up to the closing quote. -/
theorem readText_quote
    (text rest : List Char) :
    readText false '"' .plain (text.flatMap Text.escapeChar ++ '"' :: rest) =
      ⟨text.flatMap Text.escapeChar ++ ['"'], text, false, .closed, rest⟩ := by
  induction text with
  | nil =>
      rfl
  | cons c text ih =>
      rw [List.flatMap_cons, List.append_assoc, readText_escapeChar, ih]
      simp

end Script
end FeatureProbes
