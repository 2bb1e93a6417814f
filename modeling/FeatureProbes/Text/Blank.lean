/-!
# Blank characters

A character is blank when Unicode gives it the property `White_Space`.  Blanks separate the
tokens of an interface definition, end a snippet that is about to be joined, and make up the
lines that indentation leaves empty.
-/

namespace FeatureProbes
namespace Text

/-- The blank characters are the twenty-five with the Unicode property `White_Space`. -/
def isBlank (c : Char) : Bool :=
  let n := c.toNat
  (9 ≤ n && n ≤ 13) || n == 0x20 || n == 0x85 || n == 0xA0 || n == 0x1680 ||
    (0x2000 ≤ n && n ≤ 0x200A) || n == 0x2028 || n == 0x2029 || n == 0x202F ||
    n == 0x205F || n == 0x3000

/-- A text without the blanks at its end. -/
def trimEnd : List Char → List Char
  | [] => []
  | c :: rest =>
      match trimEnd rest with
      | [] => if isBlank c then [] else [c]
      | kept => c :: kept

/-- The text that is trimmed starts with what trimming keeps, and the remainder is blank. -/
theorem exists_eq_trimEnd_append
    (text : List Char) :
    ∃ blanks, text = trimEnd text ++ blanks ∧ blanks.all isBlank = true := by
  induction text with
  | nil =>
      exact ⟨[], rfl, rfl⟩
  | cons c rest ih =>
      obtain ⟨blanks, hrest, hblank⟩ := ih
      cases hkept : trimEnd rest with
      | nil =>
          rw [hkept] at hrest
          by_cases hc : isBlank c = true
          · have hnone : trimEnd (c :: rest) = [] := by
              simp [trimEnd, hkept, hc]
            refine ⟨c :: blanks, ?_, ?_⟩
            · rw [hnone, hrest]
              rfl
            · simp [hc, hblank]
          · have hone : trimEnd (c :: rest) = [c] := by
              simp [trimEnd, hkept, hc]
            refine ⟨blanks, ?_, hblank⟩
            rw [hone, hrest]
            rfl
      | cons d kept =>
          have hmore : trimEnd (c :: rest) = c :: d :: kept := by
            simp [trimEnd, hkept]
          refine ⟨blanks, ?_, hblank⟩
          rw [hkept] at hrest
          rw [hmore, hrest]
          rfl

end Text
end FeatureProbes
