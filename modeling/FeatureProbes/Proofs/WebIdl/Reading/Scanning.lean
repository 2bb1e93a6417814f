import FeatureProbes.Proofs.WebIdl.Reading.Layout

/-!
# Scanning words

A text of words with blanks between them is cut into tokens that say these words again.  A word is
read as one token up to the blank behind it or the end of the text, which no name, number or mark
goes past.
-/

namespace FeatureProbes
namespace WebIdl

/-- What may stand behind a word: a blank or the end of the text. -/
def IsBehindWord (text : List Char) : Prop :=
  text = [] ∨ ∃ rest, text = ' ' :: rest

/-- A text that is read as one number. -/
def ScansNumber (isDecimal : Bool) (text : String) : Prop :=
  startsNumber text.toList = true ∧
    scanNumber false text.toList.tail = (text.toList.tail, isDecimal, [])

instance (isDecimal : Bool) (text : String) : Decidable (ScansNumber isDecimal text) :=
  inferInstanceAs (Decidable (_ ∧ _))

/-- A word that is read as one token. -/
def Word.IsScannable (word : Word) : Prop :=
  match word.kind with
  | .name marked =>
      marked = false ∧ word.text.toList.head?.any Char.isAlpha = true ∧
        word.text.toList.all isNamePart = true
  | .integer => ScansNumber false word.text
  | .decimal => ScansNumber true word.text
  | .string => IsQuotable word.text
  | .mark => word.text ∈ marks.map Char.toString
  | .ellipsis => word.text = "..."

instance : (word : Word) → Decidable word.IsScannable
  | ⟨.name _, _⟩ => inferInstanceAs (Decidable (_ ∧ _ ∧ _))
  | ⟨.integer, _⟩ => inferInstanceAs (Decidable (ScansNumber _ _))
  | ⟨.decimal, _⟩ => inferInstanceAs (Decidable (ScansNumber _ _))
  | ⟨.string, _⟩ => inferInstanceAs (Decidable (IsQuotable _))
  | ⟨.mark, _⟩ => inferInstanceAs (Decidable (_ ∈ marks.map Char.toString))
  | ⟨.ellipsis, _⟩ => inferInstanceAs (Decidable (_ = _))

/-! ## Numbers -/

/-- No part of a number begins with a sign. -/
theorem IsNumberTail.ne_sign
    {based isDecimal : Bool} {c : Char} {more : List Char}
    (h : IsNumberTail based isDecimal (c :: more)) :
    (c == '+' || c == '-') = false := by
  have hletters : ∀ c ∈ ['e', 'E'], (c == '+' || c == '-') = false := by
    simp
  cases h with
  | digit hc hexponent hmore =>
      rw [Bool.eq_false_iff]
      intro hsign
      simp only [Bool.or_eq_true, beq_iff_eq] at hsign
      rcases hsign with rfl | rfl <;> exact absurd hc (by decide)
  | point hmore =>
      rfl
  | exponent hc hmore =>
      exact hletters c hc
  | signedExponent hc hsign hmore =>
      exact hletters c hc

/-- A point or an exponent without a sign, in front of the rest of a number. -/
theorem scanNumber_of_mark
    {based isDecimal : Bool} {c : Char} {more : List Char}
    (hmark : (c == '.' || ((c == 'e' || c == 'E') && !based)) = true)
    (hmore : IsNumberTail based isDecimal more)
    (hrest : scanNumber based more = (more, isDecimal, [])) :
    scanNumber based (c :: more) = (c :: more, true, []) := by
  cases more with
  | nil =>
      rw [scanNumber, if_pos hmark]
  | cons d more =>
      rw [scanNumber, if_pos hmark]
      simp only [hmore.ne_sign, Bool.and_false, Bool.false_eq_true, if_false, hrest]

theorem IsNumberTail.scanNumber_eq
    {based isDecimal : Bool} {text : List Char}
    (h : IsNumberTail based isDecimal text) :
    scanNumber based text = (text, isDecimal, []) := by
  have hmark : ∀ c ∈ ['e', 'E'],
      (c == '.' || ((c == 'e' || c == 'E') && !false)) = true ∧ c ≠ '.' := by
    simp
  induction h with
  | done =>
      rfl
  | @digit based isDecimal c more hc hexponent hmore ih =>
      have hplain : (c == '.' || ((c == 'e' || c == 'E') && !based)) = false := by
        have hpoint : c ≠ '.' := by
          rintro rfl
          exact absurd hc (by decide)
        simp only [List.mem_cons, List.not_mem_nil, or_false] at hexponent
        cases based <;> simp_all
      rw [scanNumber.eq_def]
      dsimp only
      rw [if_neg (by simp [hplain]), if_pos hc, ih]
  | point hmore ih =>
      exact scanNumber_of_mark rfl hmore ih
  | exponent hc hmore ih =>
      exact scanNumber_of_mark (hmark _ hc).1 hmore ih
  | @signedExponent isDecimal c sign more hc hsign hmore ih =>
      simp only [List.mem_cons, List.not_mem_nil, or_false] at hsign
      rw [scanNumber, if_pos (hmark c hc).1]
      rcases hsign with rfl | rfl
      · simp [(hmark c hc).2, ih]
      · simp [(hmark c hc).2, ih]

/-- The spelling of a number is read as a number of its kind. -/
theorem IsNumber.scansNumber
    {isDecimal : Bool} {text : String}
    (h : IsNumber isDecimal text.toList) :
    ScansNumber isDecimal text := by
  unfold ScansNumber
  generalize text.toList = characters at h
  cases h with
  | digit hc hmore =>
      exact ⟨by simp [startsNumber, hc], hmore.scanNumber_eq⟩
  | signed hc hmore =>
      exact ⟨by simpa [startsNumber] using hc, hmore.scanNumber_eq⟩
  | point hc hmore =>
      exact ⟨by simp [startsNumber, hc], hmore.scanNumber_eq⟩

/-! ## One word -/

/-- A word that can be read fits in front of a blank and at the end of a text. -/
theorem Word.IsScannable.fits
    {word : Word} {behind : List Char}
    (h : word.IsScannable)
    (hbehind : IsBehindWord behind) :
    word.Fits behind := by
  have hblank : ∀ c ∈ behind.head?, c = ' ' := by
    rcases hbehind with rfl | ⟨rest, rfl⟩
    · exact nofun
    · exact fun c hc => (Option.some.inj hc).symm
  have hname : ∀ c ∈ behind.head?, isNamePart c = false := by
    intro c hc
    rw [hblank c hc]
    decide
  have hnumber : ∀ {isDecimal : Bool} {text : String}, ScansNumber isDecimal text →
      Word.Fits ⟨if isDecimal then .decimal else .integer, text⟩ behind := by
    rintro isDecimal text ⟨hstarts, hscan⟩
    refine .number hstarts (scanNumber_append_of_stop hscan (Or.inr fun c hc => ?_))
    rw [hblank c hc]
    decide
  obtain ⟨kind, text⟩ := word
  cases kind with
  | name marked =>
      obtain ⟨rfl, hfirst, hparts⟩ := h
      obtain ⟨c, hc, halpha⟩ := (Option.any_eq_true _ _).1 hfirst
      have hplain : text.toList.head? ≠ some '_' := by
        intro hmark
        rw [hmark] at hfirst
        cases hfirst
      refine .name ?_ hplain (List.all_eq_true.1 hparts) hname
      obtain ⟨more, htext⟩ := List.head?_eq_some_iff.1 hc
      rw [htext]
      exact startsName_cons_iff.2 (Or.inl halpha)
  | integer =>
      exact hnumber h
  | decimal =>
      exact hnumber h
  | string =>
      exact .string h
  | mark =>
      obtain ⟨c, hc, rfl⟩ := List.mem_map.1 h
      exact .mark hc
  | ellipsis =>
      cases h
      exact .ellipsis

/-! ## Texts -/

theorem textOf_cons_cons
    (first second : Word)
    (more : List Word) :
    textOf (first :: second :: more) = first.spelling ++ ' ' :: textOf (second :: more) := by
  simp [textOf, List.intercalate_cons_cons]

/-- A text of words says these words. -/
theorem wordsOf_textOf
    {words : List Word}
    (hwords : ∀ word ∈ words, word.IsScannable) :
    wordsOf (textOf words) = .ok words := by
  induction words with
  | nil =>
      rfl
  | cons first more ih =>
      rw [List.forall_mem_cons] at hwords
      obtain ⟨hfirst, hmore⟩ := hwords
      cases more with
      | nil =>
          have htext : textOf [first] = first.spelling ++ [] := by
            simp [textOf]
          rw [htext, wordsOf_word (hfirst.fits (Or.inl rfl))]
          rfl
      | cons second rest =>
          have hgap : IsGap [' '] (textOf (second :: rest)) := .blank (by decide)
          rw [textOf_cons_cons, wordsOf_word (hfirst.fits (Or.inr ⟨_, rfl⟩)),
            ← List.singleton_append, wordsOf_gap hgap, ih hmore]
          rfl

theorem tokens_textOf
    {words : List Word}
    (hwords : ∀ word ∈ words, word.IsScannable) :
    ∃ found last, tokens (textOf words) = .ok (found, last) ∧ found.map Token.word = words := by
  obtain ⟨found, last, htokens, hfound⟩ := exists_tokens_of_wordsOf (wordsOf_textOf hwords)
  exact ⟨found, last, htokens, hfound.symm⟩

end WebIdl
end FeatureProbes
