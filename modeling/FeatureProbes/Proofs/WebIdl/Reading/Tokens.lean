import FeatureProbes.Proofs.Text.Affix
import FeatureProbes.WebIdl.Token

/-!
# One token of a text

The first characters of a text tell what is read from it: a name, a number, a string or a mark.  Names
and numbers are read as far as they go, so what follows them counts, but only its first character.
-/

namespace FeatureProbes
namespace WebIdl

/-! ## Visible characters -/

/-- A character that is printed and is no blank. -/
def IsVisible (c : Char) : Prop :=
  0x20 < c.toNat ∧ c.toNat < 0x7F

theorem isVisible_of_isAlpha
    {c : Char}
    (h : c.isAlpha = true) :
    IsVisible c := by
  rw [Text.isAlpha_iff] at h
  unfold IsVisible
  omega

theorem isVisible_of_isDigit
    {c : Char}
    (h : c.isDigit = true) :
    IsVisible c ∧ c.isAlpha = false := by
  have hrange : 48 ≤ c.toNat ∧ c.toNat ≤ 57 := Char.isDigit_iff_toNat.1 h
  rw [Bool.eq_false_iff, ne_eq, Text.isAlpha_iff]
  unfold IsVisible
  omega

theorem IsVisible.isBlank_eq
    {c : Char}
    (h : IsVisible c) :
    Text.isBlank c = false := by
  obtain ⟨hlow, hhigh⟩ := h
  simp only [Text.isBlank, Bool.or_eq_false_iff, Bool.and_eq_false_iff, decide_eq_false_iff_not,
    beq_eq_false_iff_ne]
  omega

/-! ## Names -/

theorem startsName_cons_iff
    {c : Char} {more : List Char} :
    startsName (c :: more) = true ↔
      c.isAlpha = true ∨ (c = '_' ∨ c = '-') ∧ ∃ d rest, more = d :: rest ∧ d.isAlpha = true := by
  cases more with
  | nil =>
      simp [startsName]
  | cons d rest =>
      simp [startsName]

theorem startsName_append
    {text : List Char}
    (h : startsName text = true)
    (behind : List Char) :
    startsName (text ++ behind) = true := by
  cases text with
  | nil =>
      cases h
  | cons c more =>
      rw [List.cons_append]
      rw [startsName_cons_iff] at h ⊢
      rcases h with hc | ⟨hc, d, rest, rfl, hd⟩
      · exact Or.inl hc
      · exact Or.inr ⟨hc, d, rest ++ behind, rfl, hd⟩

theorem startsName_of_alpha
    {text : List Char}
    (h : text.head?.any Char.isAlpha = true) :
    startsName ('_' :: text) = true := by
  cases text with
  | nil =>
      cases h
  | cons c more =>
      exact startsName_cons_iff.2 (Or.inr ⟨Or.inl rfl, c, more, rfl, h⟩)

theorem startsName_ne_nil
    {text : List Char}
    (h : startsName text = true) :
    text ≠ [] := by
  rintro rfl
  cases h

/-- What begins a name is visible, and neither a string, a comment nor an ellipsis begins there. -/
theorem isVisible_of_startsName
    {c : Char} {more : List Char}
    (h : startsName (c :: more) = true) :
    IsVisible c ∧ c ≠ '"' ∧ c ≠ '/' ∧ c ≠ '.' := by
  rcases startsName_cons_iff.1 h with hc | ⟨rfl | rfl, -⟩
  · have hne : ∀ other : Char, other.isAlpha = false → c ≠ other := by
      rintro other hother rfl
      rw [hother] at hc
      cases hc
    exact ⟨isVisible_of_isAlpha hc, hne _ (by decide), hne _ (by decide), hne _ (by decide)⟩
  · exact ⟨⟨by decide, by decide⟩, by decide, by decide, by decide⟩
  · exact ⟨⟨by decide, by decide⟩, by decide, by decide, by decide⟩

theorem takeWhile_isNamePart
    (text : List Char) :
    (∀ c ∈ text.takeWhile isNamePart, isNamePart c = true) ∧
      ∀ c ∈ (text.dropWhile isNamePart).head?, isNamePart c = false := by
  refine ⟨List.all_eq_true.1 List.all_takeWhile, fun c hc => ?_⟩
  have hstop := List.head?_dropWhile_not isNamePart text
  rw [show (text.dropWhile isNamePart).head? = some c from hc] at hstop
  exact hstop

theorem startsName_takeWhile
    {text : List Char}
    (h : startsName text = true) :
    startsName (text.takeWhile isNamePart) = true := by
  have hpart : ∀ c : Char, c.isAlpha = true → isNamePart c = true := by
    intro c hc
    simp [isNamePart, Char.isAlphanum, hc]
  cases text with
  | nil =>
      cases h
  | cons c more =>
      rcases startsName_cons_iff.1 h with hc | ⟨hc, d, rest, rfl, hd⟩
      · rw [List.takeWhile_cons_of_pos (hpart c hc)]
        exact startsName_cons_iff.2 (Or.inl hc)
      · have hfirst : isNamePart c = true := by
          rcases hc with rfl | rfl <;> rfl
        rw [List.takeWhile_cons_of_pos hfirst, List.takeWhile_cons_of_pos (hpart d hd)]
        exact startsName_cons_iff.2 (Or.inr ⟨hc, d, _, rfl, hd⟩)

/-! ## Numbers -/

/-- A character that may stand in a number. -/
def isNumberPart (c : Char) : Bool :=
  c.isAlphanum || c == '.' || c == '+' || c == '-'

/-- A number begins with a digit, or with a sign or a point and what may follow it. -/
theorem startsNumber_cons_iff
    {c : Char} {more : List Char} :
    startsNumber (c :: more) = true ↔
      c.isDigit = true ∨
        (c = '-' ∧ ∃ d rest, more = d :: rest ∧ (d.isDigit = true ∨ d = '.')) ∨
        (c = '.' ∧ ∃ d rest, more = d :: rest ∧ d.isDigit = true) := by
  cases more with
  | nil =>
      simp [startsNumber]
  | cons d rest =>
      simp [startsNumber, or_assoc]

/-- What begins a number is visible, and neither a name nor an ellipsis begins there. -/
theorem isVisible_of_startsNumber
    {c : Char} {more : List Char}
    (h : startsNumber (c :: more) = true) :
    IsVisible c ∧ c ≠ '"' ∧ c ≠ '/' ∧ (∀ rest, c :: more ≠ '.' :: '.' :: '.' :: rest) ∧
      startsName (c :: more) = false := by
  rcases startsNumber_cons_iff.1 h with hc | ⟨rfl, d, rest, rfl, hd⟩ | ⟨rfl, d, rest, rfl, hd⟩
  · have hne : ∀ other : Char, other.isDigit = false → c ≠ other := by
      rintro other hother rfl
      rw [hother] at hc
      cases hc
    refine ⟨(isVisible_of_isDigit hc).1, hne _ (by decide), hne _ (by decide), ?_, ?_⟩
    · exact fun rest heq => hne '.' (by decide) (List.cons.inj heq).1
    · simp [startsName, (isVisible_of_isDigit hc).2, hne '_' (by decide), hne '-' (by decide)]
  · refine ⟨⟨by decide, by decide⟩, by decide, by decide, fun rest heq => ?_, ?_⟩
    · exact absurd (List.cons.inj heq).1 (by decide)
    · rcases hd with hd | rfl
      · simp [startsName, (isVisible_of_isDigit hd).2]
      · simp [startsName]
  · refine ⟨⟨by decide, by decide⟩, by decide, by decide, fun rest heq => ?_, by simp [startsName]⟩
    have hpoint : d = '.' := (List.cons.inj (List.cons.inj heq).2).1
    rw [hpoint] at hd
    exact absurd hd (by decide)

theorem startsNumber_append
    {c : Char} {more : List Char}
    (h : startsNumber (c :: more) = true)
    (behind : List Char) :
    startsNumber (c :: (more ++ behind)) = true := by
  rw [startsNumber_cons_iff] at h ⊢
  rcases h with hc | ⟨rfl, d, rest, rfl, hd⟩ | ⟨rfl, d, rest, rfl, hd⟩
  · exact Or.inl hc
  · exact Or.inr (Or.inl ⟨rfl, d, rest ++ behind, rfl, hd⟩)
  · exact Or.inr (Or.inr ⟨rfl, d, rest ++ behind, rfl, hd⟩)

section Numbers

variable {based isDecimal : Bool} {text taken rest : List Char}

theorem scanNumber_of_not_isNumberPart
    (h : ∀ c ∈ rest.head?, isNumberPart c = false)
    (based : Bool) :
    scanNumber based rest = ([], false, rest) := by
  cases rest with
  | nil =>
      rfl
  | cons c rest =>
      have hc := h c rfl
      simp only [isNumberPart, Bool.or_eq_false_iff] at hc
      obtain ⟨⟨⟨halnum, hpoint⟩, -⟩, -⟩ := hc
      have hexponent : (c == 'e' || c == 'E') = false := by
        rw [Bool.eq_false_iff]
        intro heq
        simp only [Bool.or_eq_true, beq_iff_eq] at heq
        rcases heq with rfl | rfl <;> cases halnum
      rw [scanNumber.eq_def]
      simp [halnum, hpoint, hexponent]

/-- A number is taken from the front of the text, and no line ends in it. -/
theorem eq_append_of_scanNumber
    (h : scanNumber based text = (taken, isDecimal, rest)) :
    text = taken ++ rest ∧ '\n' ∉ taken := by
  fun_induction scanNumber based text generalizing taken isDecimal rest with
  | case1 based =>
      cases h
      exact ⟨rfl, List.not_mem_nil⟩
  | case2 based c hmark d more hsign text flag behind heq ih =>
      cases h
      obtain ⟨rfl, htext⟩ := ih heq
      have hc : '\n' ≠ c := by
        rintro rfl
        simp at hmark
      have hd : '\n' ≠ d := by
        rintro rfl
        simp at hsign
      exact ⟨rfl, by simp [hc, hd, htext]⟩
  | case3 based c hmark d more hsign text flag behind heq ih =>
      cases h
      obtain ⟨hmore, htext⟩ := ih heq
      have hc : '\n' ≠ c := by
        rintro rfl
        simp at hmark
      exact ⟨by rw [hmore, List.cons_append], by simp [hc, htext]⟩
  | case4 based c hmark =>
      cases h
      have hc : '\n' ≠ c := by
        rintro rfl
        simp at hmark
      exact ⟨rfl, by simp [hc]⟩
  | case5 based c more hmark halnum text flag behind heq ih =>
      cases h
      obtain ⟨rfl, htext⟩ := ih heq
      have hc : '\n' ≠ c := by
        rintro rfl
        exact absurd halnum (by decide)
      exact ⟨rfl, by simp [hc, htext]⟩
  | case6 based c more hmark halnum =>
      cases h
      exact ⟨rfl, List.not_mem_nil⟩

/-- Where a number ends depends on one character: it ends in front of another text, too, if that
begins alike or with nothing that may stand in a number. -/
theorem scanNumber_append_of_stop
    {other : List Char}
    (h : scanNumber based text = (taken, isDecimal, rest))
    (hother : other.head? = rest.head? ∨ ∀ c ∈ other.head?, isNumberPart c = false) :
    scanNumber based (taken ++ other) = (taken, isDecimal, other) := by
  fun_induction scanNumber based text generalizing taken isDecimal rest with
  | case1 based =>
      cases h
      rcases hother with hnil | hstop
      · rw [List.head?_nil, List.head?_eq_none_iff] at hnil
        rw [hnil]
        rfl
      · exact scanNumber_of_not_isNumberPart hstop based
  | case2 based c hmark d more hsign text flag behind heq ih =>
      cases h
      rw [List.cons_append, List.cons_append, scanNumber, if_pos hmark]
      simp only [hsign, if_true, ih heq hother]
  | case3 based c hmark d more hsign text flag behind heq ih =>
      cases h
      have hmore := ih heq hother
      -- What stands behind the point or the letter is no sign, here as there.
      have hplain : ∀ e ∈ (text ++ other).head?, (c != '.' && (e == '+' || e == '-')) = false := by
        intro e he
        have hd : (c != '.' && (d == '+' || d == '-')) = false := by simpa using hsign
        obtain ⟨htext, -⟩ := eq_append_of_scanNumber heq
        cases text with
        | nil =>
            rcases hother with hsame | hstop
            · rw [List.nil_append, hsame, ← List.nil_append behind, ← htext] at he
              cases he
              exact hd
            · have hpart := hstop e he
              simp only [isNumberPart, Bool.or_eq_false_iff] at hpart
              simp [hpart.1.2, hpart.2]
        | cons first text =>
            cases he
            cases htext
            exact hd
      rw [List.cons_append]
      cases hall : text ++ other with
      | nil =>
          obtain ⟨rfl, rfl⟩ := List.append_eq_nil_iff.1 hall
          rw [scanNumber, if_pos hmark]
      | cons e all =>
          rw [hall] at hmore hplain
          rw [scanNumber, if_pos hmark]
          simp only [hplain e rfl, Bool.false_eq_true, if_false, hmore]
  | case4 based c hmark =>
      cases h
      rw [List.cons_append, List.nil_append]
      cases other with
      | nil =>
          rw [scanNumber, if_pos hmark]
      | cons e other =>
          have hstop : ∀ d ∈ (e :: other).head?, isNumberPart d = false := by
            simpa using hother
          have hpart := hstop e rfl
          simp only [isNumberPart, Bool.or_eq_false_iff] at hpart
          rw [scanNumber, if_pos hmark]
          simp [hpart.1.2, hpart.2, scanNumber_of_not_isNumberPart hstop]
  | case5 based c more hmark halnum text flag behind heq ih =>
      cases h
      rw [List.cons_append, scanNumber.eq_def]
      dsimp only
      rw [if_neg hmark, if_pos halnum, ih heq hother]
  | case6 based c more hmark halnum =>
      cases h
      rw [List.nil_append]
      rcases hother with hsame | hstop
      · obtain ⟨other, rfl⟩ := List.head?_eq_some_iff.1 (hsame.trans (List.head?_cons))
        rw [scanNumber.eq_def]
        dsimp only
        rw [if_neg hmark, if_neg halnum]
      · exact scanNumber_of_not_isNumberPart hstop based

/-- What begins a number is taken into it. -/
theorem startsNumber_of_scanNumber
    {c : Char} {taken more : List Char} {isDecimal : Bool}
    (hstarts : startsNumber (c :: more) = true)
    (hscan : scanNumber false more = (taken, isDecimal, rest)) :
    startsNumber (c :: taken) = true := by
  have hfirst : ∀ d behind, more = d :: behind → (d.isDigit = true ∨ d = '.') →
      ∃ others, taken = d :: others := by
    rintro d behind rfl hd
    obtain ⟨happend, -⟩ := eq_append_of_scanNumber hscan
    cases taken with
    | nil =>
        -- Nothing would be taken of `d` alone, either.
        have hhead : (d :: behind).head? = ([] ++ rest).head? := congrArg List.head? happend
        have halone : scanNumber false ([] ++ [d]) = ([], isDecimal, [d]) :=
          scanNumber_append_of_stop hscan (Or.inl hhead)
        rcases hd with hd | rfl
        · have hletter : (d == '.' || d == 'e' || d == 'E') = false := by
            rw [Bool.eq_false_iff]
            intro heq
            simp only [Bool.or_eq_true, beq_iff_eq] at heq
            rcases heq with (rfl | rfl) | rfl <;> cases hd
          rw [List.nil_append, scanNumber.eq_def] at halone
          simp_all [Char.isAlphanum]
        · cases halone
    | cons first others =>
        cases happend
        exact ⟨others, rfl⟩
  rcases startsNumber_cons_iff.1 hstarts with hc | ⟨rfl, d, behind, hmore, hd⟩ |
    ⟨rfl, d, behind, hmore, hd⟩
  · exact startsNumber_cons_iff.2 (Or.inl hc)
  · obtain ⟨others, rfl⟩ := hfirst d behind hmore hd
    exact startsNumber_cons_iff.2 (Or.inr (Or.inl ⟨rfl, d, others, rfl, hd⟩))
  · obtain ⟨others, rfl⟩ := hfirst d behind hmore (Or.inl hd)
    exact startsNumber_cons_iff.2 (Or.inr (Or.inr ⟨rfl, d, others, rfl, hd⟩))

end Numbers

/-! ## Strings -/

theorem scanString_append
    {text : List Char}
    (htext : '"' ∉ text)
    (line : Nat)
    (rest : List Char) :
    scanString line (text ++ '"' :: rest) = some (text, line + text.count '\n', rest) := by
  induction text generalizing line with
  | nil =>
      simp [scanString]
  | cons c text ih =>
      have hne : c ≠ '"' := fun heq => htext (heq ▸ List.mem_cons_self)
      have hrest := ih fun hmem => htext (List.mem_cons_of_mem c hmem)
      rw [List.cons_append, scanString, if_neg hne, hrest]
      by_cases hline : c = '\n'
      · subst hline
        simp [Nat.add_assoc, Nat.add_comm 1]
      · simp [hline]

/-- A string is closed at the next quote, or not at all. -/
theorem scanString_eq_none
    {text : List Char}
    (h : '"' ∉ text)
    (line : Nat) :
    scanString line text = none := by
  induction text generalizing line with
  | nil =>
      rfl
  | cons c text ih =>
      rw [List.mem_cons, not_or] at h
      rw [scanString, if_neg (Ne.symm h.1), ih h.2]
      rfl

/-! ## One step -/

/-- What begins with neither a blank, a comment nor an ellipsis. -/
theorem scanOne_of_plain
    {c : Char} {more : List Char}
    (hblank : Text.isBlank c = false)
    (hcomment : ∀ d ∈ ['/', '*'], ∀ rest, c :: more ≠ '/' :: d :: rest)
    (hdots : ∀ rest, c :: more ≠ '.' :: '.' :: '.' :: rest)
    (line : Nat) :
    scanOne line (c :: more) =
      if c = '"' then
        match scanString line more with
        | some (value, last, rest) => .token ⟨.string, String.ofList value, last⟩ last rest
        | none => .failed (line + more.count '\n') .unterminatedString
      else if startsName (c :: more) then scanName line (c :: more)
      else if startsNumber (c :: more) then
        let (more, isDecimal, rest) := scanNumber false more
        .token ⟨if isDecimal then .decimal else .integer, String.ofList (c :: more), line⟩ line
          rest
      else if marks.contains c then .token ⟨.mark, c.toString, line⟩ line more
      else .failed line (.unexpectedCharacter c) := by
  have hline : c ≠ '\n' := by
    rintro rfl
    cases hblank
  rw [scanOne.eq_def]
  split
  · rename_i heq
    cases heq
  · rename_i heq
    exact absurd heq (hcomment '/' (by simp) _)
  · rename_i heq
    exact absurd heq (hcomment '*' (by simp) _)
  · rename_i heq
    exact absurd heq (hdots _)
  · rename_i heq
    cases heq
    have hblank' : ¬Text.isBlank c = true := by
      rw [hblank]
      exact Bool.false_ne_true
    rw [if_neg hline]
    exact if_neg hblank'

/-- What begins with a visible character is no blank, no comment and no string. -/
theorem scanOne_of_isVisible
    {c : Char} {rest : List Char}
    (hvisible : IsVisible c)
    (hquote : c ≠ '"')
    (hslash : c ≠ '/')
    (hdots : ∀ more, c :: rest ≠ '.' :: '.' :: '.' :: more)
    (line : Nat) :
    scanOne line (c :: rest) =
      if startsName (c :: rest) then scanName line (c :: rest)
      else if startsNumber (c :: rest) then
        let (more, isDecimal, rest) := scanNumber false rest
        .token ⟨if isDecimal then .decimal else .integer, String.ofList (c :: more), line⟩ line
          rest
      else if marks.contains c then .token ⟨.mark, c.toString, line⟩ line rest
      else .failed line (.unexpectedCharacter c) := by
  have hcomment : ∀ d ∈ ['/', '*'], ∀ more, c :: rest ≠ '/' :: d :: more :=
    fun _ _ _ heq => hslash (List.cons.inj heq).1
  rw [scanOne_of_plain hvisible.isBlank_eq hcomment hdots]
  exact if_neg hquote

/-- Where a name begins, a name is read. -/
theorem scanOne_of_startsName
    {text : List Char}
    (h : startsName text = true)
    (line : Nat) :
    scanOne line text = scanName line text := by
  cases text with
  | nil =>
      cases h
  | cons c more =>
      obtain ⟨hvisible, hquote, hslash, hpoint⟩ := isVisible_of_startsName h
      have hdots : ∀ others, c :: more ≠ '.' :: '.' :: '.' :: others :=
        fun others heq => hpoint (List.cons.inj heq).1
      rw [scanOne_of_isVisible hvisible hquote hslash hdots, if_pos h]

section Steps

variable {text : String} {rest : List Char}

theorem scanOne_name
    (hstarts : startsName text.toList = true)
    (hplain : text.toList.head? ≠ some '_')
    (hparts : ∀ c ∈ text.toList, isNamePart c = true)
    (hrest : ∀ c ∈ rest.head?, isNamePart c = false)
    (line : Nat) :
    scanOne line (text.toList ++ rest) = .token ⟨.name false, text, line⟩ line rest := by
  have hspan := Text.span_of_stop rest hparts hrest
  have hmark : ∀ plain, text.toList ≠ '_' :: plain := by
    intro plain heq
    rw [heq] at hplain
    exact hplain rfl
  rw [scanOne_of_startsName (startsName_append hstarts rest), scanName, hspan.1, hspan.2]
  split
  · rename_i plain heq
    exact absurd heq (hmark plain)
  · rw [String.ofList_toList]

theorem scanOne_markedName
    (hstarts : text.toList.head?.any Char.isAlpha = true)
    (hparts : ∀ c ∈ text.toList, isNamePart c = true)
    (hrest : ∀ c ∈ rest.head?, isNamePart c = false)
    (line : Nat) :
    scanOne line ('_' :: text.toList ++ rest) = .token ⟨.name true, text, line⟩ line rest := by
  have hall : ∀ c ∈ '_' :: text.toList, isNamePart c = true :=
    List.forall_mem_cons.2 ⟨by decide, hparts⟩
  have hspan := Text.span_of_stop rest hall hrest
  rw [scanOne_of_startsName (startsName_append (startsName_of_alpha hstarts) rest), scanName,
    hspan.1, hspan.2]
  change Scanned.token ⟨.name true, String.ofList text.toList, line⟩ line rest = _
  rw [String.ofList_toList]

theorem scanOne_number
    {isDecimal : Bool}
    (hstarts : startsNumber text.toList = true)
    (hscan : scanNumber false (text.toList.tail ++ rest) = (text.toList.tail, isDecimal, rest))
    (line : Nat) :
    scanOne line (text.toList ++ rest) =
      .token ⟨if isDecimal then .decimal else .integer, text, line⟩ line rest := by
  cases htext : text.toList with
  | nil =>
      rw [htext] at hstarts
      cases hstarts
  | cons c more =>
      rw [htext] at hstarts hscan
      rw [List.tail_cons] at hscan
      have hfront := startsNumber_append hstarts rest
      obtain ⟨hvisible, hquote, hslash, hdots, hname⟩ := isVisible_of_startsNumber hfront
      rw [List.cons_append, scanOne_of_isVisible hvisible hquote hslash hdots, hname,
        if_pos hfront, hscan]
      dsimp only
      rw [← htext, String.ofList_toList]
      rfl

theorem scanOne_quote
    (line : Nat)
    (rest : List Char) :
    scanOne line ('"' :: rest) =
      match scanString line rest with
      | some (value, last, rest) => .token ⟨.string, String.ofList value, last⟩ last rest
      | none => .failed (line + rest.count '\n') .unterminatedString := by
  rfl

/-- A string has the line of its closing quote. -/
theorem scanOne_string
    (htext : '"' ∉ text.toList)
    (line : Nat) :
    scanOne line ('"' :: (text.toList ++ '"' :: rest)) =
      .token ⟨.string, text, line + text.toList.count '\n'⟩ (line + text.toList.count '\n') rest := by
  rw [scanOne_quote, scanString_append htext]
  dsimp only
  rw [String.ofList_toList]

theorem scanOne_mark
    {c : Char}
    (h : c ∈ marks)
    (line : Nat) :
    scanOne line (c :: rest) = .token ⟨.mark, c.toString, line⟩ line rest := by
  simp only [marks, List.mem_cons, List.not_mem_nil, or_false] at h
  rcases h with rfl | rfl | rfl | rfl | rfl | rfl | rfl | rfl | rfl | rfl | rfl | rfl | rfl | rfl
  all_goals rfl

end Steps

end WebIdl
end FeatureProbes
