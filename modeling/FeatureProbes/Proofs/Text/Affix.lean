import FeatureProbes.Text.Affix

/-!
# Texts with a known beginning or end

What is left of a text is known from the text and the beginning or the end that was cut off.  A
beginning may also be cut off at the first character that is not of some class.  The classes of
letters and digits are known by the numbers of their characters.
-/

namespace FeatureProbes
namespace Text

section Characters

variable {c : Char}

/-- The letters by their numbers. -/
theorem isAlpha_iff :
    c.isAlpha = true ↔ 65 ≤ c.toNat ∧ c.toNat ≤ 90 ∨ 97 ≤ c.toNat ∧ c.toNat ≤ 122 := by
  change (decide ('A'.val ≤ c.val ∧ c.val ≤ 'Z'.val) ||
    (decide ('a'.val ≤ c.val) && decide (c.val ≤ 'z'.val))) = true ↔ _
  simp only [Bool.or_eq_true, Bool.and_eq_true, decide_eq_true_eq, UInt32.le_iff_toNat_le]
  rfl

theorem toNat_lt_of_isAlphanum
    (h : c.isAlphanum = true) :
    c.toNat < 128 := by
  simp only [Char.isAlphanum, Bool.or_eq_true, isAlpha_iff] at h
  rcases h with halpha | hdigit
  · omega
  · have hrange : 48 ≤ c.toNat ∧ c.toNat ≤ 57 := Char.isDigit_iff_toNat.1 hdigit
    omega

end Characters

variable {start ending text rest : String}

theorem dropStart?_eq_some_iff :
    dropStart? start text = some rest ↔ text = start ++ rest := by
  rw [dropStart?, Option.map_eq_some_iff]
  simp only [afterStart?_eq_some_iff]
  constructor
  · rintro ⟨chars, htext, rfl⟩
    rw [← String.toList_inj, htext, String.toList_append, String.toList_ofList]
  · rintro rfl
    exact ⟨rest.toList, String.toList_append, String.ofList_toList⟩

theorem dropEnd?_eq_some_iff :
    dropEnd? ending text = some rest ↔ text = rest ++ ending := by
  rw [dropEnd?, Option.map_eq_some_iff]
  simp only [beforeEnd?_eq_some_iff]
  constructor
  · rintro ⟨chars, htext, rfl⟩
    rw [← String.toList_inj, htext, String.toList_append, String.toList_ofList]
  · rintro rfl
    exact ⟨rest.toList, String.toList_append, String.ofList_toList⟩

/-- Characters of a class are cut off up to the first one that is not in it. -/
theorem span_of_stop
    {p : Char → Bool} {front : List Char}
    (behind : List Char)
    (hfront : ∀ c ∈ front, p c = true)
    (hbehind : ∀ c ∈ behind.head?, p c = false) :
    (front ++ behind).takeWhile p = front ∧ (front ++ behind).dropWhile p = behind := by
  rw [List.takeWhile_append_of_pos hfront, List.dropWhile_append_of_pos hfront]
  cases behind with
  | nil =>
      simp
  | cons c behind =>
      simp [hbehind c rfl]

/-- A text without some character does not begin with a text that has it. -/
theorem dropStart?_eq_none
    (c : Char)
    (hstart : c ∈ start.toList)
    (htext : c ∉ text.toList) :
    dropStart? start text = none := by
  refine Option.eq_none_iff_forall_ne_some.2 fun rest hrest => ?_
  rw [dropStart?_eq_some_iff.1 hrest, String.toList_append] at htext
  exact htext (List.mem_append_left _ hstart)

/-- A text does not begin with a text that has another first character. -/
theorem dropStart?_append_eq_none
    {first other : Char} {starting beginning : List Char}
    (hstart : start.toList = first :: starting)
    (htext : text.toList = other :: beginning)
    (hne : first ≠ other) :
    dropStart? start (text ++ rest) = none := by
  refine Option.eq_none_iff_forall_ne_some.2 fun left hleft => ?_
  have hlist := congrArg String.toList (dropStart?_eq_some_iff.1 hleft)
  rw [String.toList_append, String.toList_append, hstart, htext, List.cons_append,
    List.cons_append, List.cons.injEq] at hlist
  exact hne hlist.1.symm

end Text
end FeatureProbes
