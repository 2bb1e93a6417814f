/-!
# Beginnings and ends of texts

What is left of a text without a given beginning or a given end.
-/

namespace FeatureProbes
namespace Text

/-- What follows a beginning, if the text has it. -/
def afterStart? : List Char → List Char → Option (List Char)
  | [], text => some text
  | _ :: _, [] => none
  | c :: start, d :: text => if c = d then afterStart? start text else none

/-- A text begins with what is cut off. -/
theorem afterStart?_eq_some_iff
    {start text rest : List Char} :
    afterStart? start text = some rest ↔ text = start ++ rest := by
  induction start generalizing text with
  | nil =>
      simp [afterStart?]
  | cons c start ih =>
      cases text with
      | nil =>
          simp [afterStart?]
      | cons d text =>
          by_cases h : c = d
          · simp [afterStart?, h, ih]
          · simp [afterStart?, h, Ne.symm h]

/-- What stands before an ending, if a text has it. -/
def beforeEnd? (ending text : List Char) : Option (List Char) :=
  (afterStart? ending.reverse text.reverse).map List.reverse

/-- A text ends with what is cut off. -/
theorem beforeEnd?_eq_some_iff
    {ending text rest : List Char} :
    beforeEnd? ending text = some rest ↔ text = rest ++ ending := by
  rw [beforeEnd?, Option.map_eq_some_iff]
  constructor
  · rintro ⟨left, hleft, rfl⟩
    have h := congrArg List.reverse (afterStart?_eq_some_iff.1 hleft)
    simpa using h
  · rintro rfl
    exact ⟨rest.reverse, afterStart?_eq_some_iff.2 (by simp), by simp⟩

/-- What follows a beginning of a string, if the string has it. -/
def dropStart? (start s : String) : Option String :=
  (afterStart? start.toList s.toList).map String.ofList

/-- What stands before an ending, if a string has it. -/
def dropEnd? (ending s : String) : Option String :=
  (beforeEnd? ending.toList s.toList).map String.ofList

/-- A text without the pairs of at-signs in front. -/
def dropAtSigns : List Char → List Char
  | '@' :: '@' :: rest => dropAtSigns rest
  | text => text

end Text
end FeatureProbes
