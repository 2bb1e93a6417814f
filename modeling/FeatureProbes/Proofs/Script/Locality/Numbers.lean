import FeatureProbes.Proofs.Script.Locality

/-!
# How far a number reaches

Digits are taken as long as they go on, and what may follow them is looked at one character at a
time.  So a number is the same in front of whatever begins like the text after it.
-/

namespace FeatureProbes
namespace Script

open Text Reading

section Numbers

variable {first : List Char → Taken} {isDigit : Char → Bool} {front text : List Char}

theorem Settled.cons
    (h : Settled first front text)
    (c : Char) :
    Settled (fun text => (first text).cons c) (c :: front) text :=
  h.map [c] id rfl rfl fun _ => rfl

/-- A reader puts the first character in front of what the next reader takes. -/
theorem Settled.head_cons
    {next : List Char → Taken} {c : Char}
    (h : Settled next [] text)
    (hread : ∀ other, SameFront text other → first (c :: other) = (next other).cons c)
    (hc : isBlank c = false) :
    Settled first [] (c :: text) :=
  h.put hread id rfl rfl (fun _ => rfl) (Or.inl hc)

theorem Settled.andThen
    {next : List Char → Taken}
    (h : Settled first front text)
    (hnext : Settled next [] (first text).rest) :
    Settled (fun text => (first text).andThen next) front text := by
  refine h.bind (g := fun taken => taken.andThen next) []
    (fun hfine => (Option.or_eq_none_iff.1 hfine).1) ?_
  intro hfine other hother
  obtain ⟨more, htext, hspelling, hvisible, hread⟩ :=
    hnext (Option.or_eq_none_iff.1 hfine).2 other hother
  refine ⟨more, htext, congrArg ((first text).spelling ++ ·) hspelling, hvisible, ?_⟩
  simp only [Taken.andThen, before, hread]
  rfl

/-- A reader that takes nothing unless the text begins with a character of some class. -/
theorem Settled.of_class
    {p : Char → Bool}
    (hp : ∀ c, isBlank c = true → p c = false)
    (hnothing : ∀ {text : List Char}, text.head?.any p = false → first text = takeNothing text)
    (hsome : ∀ {c : Char} {rest : List Char}, p c = true → text = c :: rest →
      Settled first [] text) :
    Settled first [] text := by
  by_cases hhead : text.head?.any p = true
  · obtain ⟨c, rest, htext, hclass⟩ := exists_cons_of_any_head? hhead
    exact hsome hclass htext
  · rw [Bool.not_eq_true] at hhead
    have htext := hnothing hhead
    refine .stop (congrArg Taken.spelling htext) (congrArg Taken.rest htext) ?_
    intro other hother
    rw [htext, hnothing ((hother.any_head? hp).symm.trans hhead)]
    rfl

theorem moreDigits_cons
    {c : Char}
    (hc : isDigit c = true)
    (text : List Char) :
    moreDigits isDigit (c :: text) = (moreDigits isDigit text).cons c := by
  rw [moreDigits.eq_def]
  simp [hc]

theorem moreDigits_line
    (hline : isDigit '_' = false)
    (h : text.head?.any isDigit = true) :
    moreDigits isDigit ('_' :: text) = (moreDigits isDigit text).cons '_' := by
  obtain ⟨c, text, rfl, hc⟩ := exists_cons_of_any_head? h
  rw [moreDigits_cons hc, moreDigits.eq_def]
  simp [hline, hc]

theorem settled_moreDigits
    (hdigit : ∀ c, isBlank c = true → isDigit c = false)
    (text : List Char) :
    Settled (moreDigits isDigit) [] text := by
  have hclass : ∀ c, isBlank c = true → (isDigit c || c == '_') = false := by
    intro c hc
    rw [hdigit c hc, Bool.false_or, beq_eq_false_iff_ne]
    rintro rfl
    cases hc
  have hnothing : ∀ {text : List Char}, text.head?.any (fun c => isDigit c || c == '_') = false →
      moreDigits isDigit text = takeNothing text := by
    intro text h
    rw [moreDigits.eq_def]
    cases text <;> simp_all
  -- the digit behind a low line is looked at before the line is taken, so it is taken first
  have hmore : ∀ {c : Char} {rest : List Char}, isDigit c = true →
      Settled (moreDigits isDigit) [] rest → Settled (moreDigits isDigit) [] (c :: rest) :=
    fun hc h => h.head_cons (fun other _ => moreDigits_cons hc other) (isBlank_eq_false hdigit hc)
  fun_induction moreDigits isDigit text with
  | case1 =>
      exact .of_class hclass hnothing nofun
  | case2 c rest hc ih =>
      exact hmore hc ih
  | case3 c hc hline d rest hd ih =>
      obtain rfl : c = '_' := by simpa using hline
      refine (hmore hd ih).head_cons (fun other hother => ?_) (by decide)
      refine moreDigits_line (by simpa using hc) ?_
      rw [← hother.any_head? hdigit]
      exact hd
  | case4 c hc hline d rest hd =>
      refine .of_not_fine ?_
      rw [moreDigits.eq_def]
      simp_all [Fine]
  | case5 c hc hline =>
      refine .of_not_fine ?_
      simp_all [moreDigits, Fine]
  | case6 c rest hc hline =>
      refine .of_class hclass hnothing ?_
      rintro d _ hd ⟨⟩
      simp_all

theorem settled_someDigits
    (hdigit : ∀ c, isBlank c = true → isDigit c = false)
    (text : List Char) :
    Settled (someDigits isDigit) [] text := by
  cases text with
  | nil =>
      exact .of_not_fine nofun
  | cons c rest =>
      by_cases hc : isDigit c = true
      · refine (settled_moreDigits hdigit rest).head_cons (fun other _ => ?_)
          (isBlank_eq_false hdigit hc)
        rw [someDigits, if_pos hc]
      · exact .of_not_fine (by simp [someDigits, hc, Fine])

theorem settled_anyDigits
    (text : List Char) :
    Settled anyDigits [] text := by
  refine .of_class isDigit_of_isBlank (fun {text} h => ?_) ?_
  · cases text <;> simp_all [anyDigits]
  · rintro c rest hc rfl
    refine (settled_moreDigits isDigit_of_isBlank rest).head_cons (fun other _ => ?_)
      (isBlank_eq_false isDigit_of_isBlank hc)
    rw [anyDigits, if_pos hc]

theorem settled_exponentDigits
    (text : List Char) :
    Settled exponentDigits [] text := by
  have hclass := eq_false_of_isBlank (p := ['+', '-'].contains) (by decide)
  by_cases hhead : text.head?.any ['+', '-'].contains = true
  · obtain ⟨c, rest, rfl, hsign⟩ := exists_cons_of_any_head? hhead
    refine (settled_someDigits isDigit_of_isBlank rest).head_cons (fun other _ => ?_)
      (isBlank_eq_false hclass hsign)
    simp_all [exponentDigits]
  · refine (settled_someDigits isDigit_of_isBlank text).congr fun other hother => ?_
    rw [hother.any_head? hclass] at hhead
    cases other <;> simp_all [exponentDigits, someDigits]

theorem settled_anyExponent
    (text : List Char) :
    Settled anyExponent [] text := by
  have hclass := eq_false_of_isBlank (p := ['e', 'E'].contains) (by decide)
  refine .of_class hclass (fun {text} h => ?_) ?_
  · cases text <;> simp_all [anyExponent]
  · rintro c rest hc rfl
    refine (settled_exponentDigits rest).head_cons (fun other _ => ?_)
      (isBlank_eq_false hclass hc)
    simp_all [anyExponent]

theorem settled_anyBigMark
    (text : List Char) :
    Settled anyBigMark [] text := by
  have hclass := eq_false_of_isBlank (p := ['n'].contains) (by decide)
  refine .of_class hclass (fun {text} h => ?_) ?_
  · cases text <;> simp_all [anyBigMark]
  · rintro c rest hc rfl
    have hnothing : Settled takeNothing [] rest := .stop rfl rfl fun _ _ => rfl
    refine hnothing.head_cons (fun other _ => ?_) (isBlank_eq_false hclass hc)
    simp_all [anyBigMark, takeNothing, Taken.cons]

/-- What may not follow a number. -/
def goesOn (checked : Bool) (rest : List Char) : Bool :=
  checked && rest.head?.any fun c => c.isDigit || isNameStart c

theorem toNumber_eq
    {taken : Taken} {checked : Bool}
    (form : NumberForm)
    (h : goesOn checked taken.rest = false) :
    taken.toNumber form checked =
      { Lexeme.plain (.number form) taken.spelling taken.rest with
        faults := taken.fault.toList } := by
  unfold goesOn at h
  unfold Taken.toNumber
  generalize taken.rest = rest at h ⊢
  cases rest with
  | nil =>
      rfl
  | cons c rest =>
      simp only [List.head?_cons, Option.any_some] at h
      simp [h]

theorem faults_toNumber_ne_nil
    {taken : Taken} {checked : Bool}
    (form : NumberForm)
    (h : goesOn checked taken.rest = true) :
    (taken.toNumber form checked).faults ≠ [] := by
  unfold goesOn at h
  unfold Taken.toNumber
  generalize taken.rest = rest at h ⊢
  cases rest with
  | nil =>
      simp at h
  | cons c rest =>
      simp only [List.head?_cons, Option.any_some] at h
      simp [h]

theorem fault_of_toNumber
    {taken : Taken} {form : NumberForm} {checked : Bool}
    (h : (taken.toNumber form checked).faults = []) :
    taken.fault = none := by
  cases hgoes : goesOn checked taken.rest with
  | true =>
      exact absurd h (faults_toNumber_ne_nil form hgoes)
  | false =>
      rw [toNumber_eq form hgoes] at h
      exact Option.toList_eq_nil_iff.1 h

/-- Digits make a number in front of whatever begins like the text after them. -/
theorem Settled.toNumber
    (h : Settled first front text)
    (form : NumberForm)
    (checked : Bool) :
    Settled (fun text => (first text).toNumber form checked) front text := by
  cases hgoes : goesOn checked (first text).rest with
  | true =>
      exact .of_not_fine (faults_toNumber_ne_nil form hgoes)
  | false =>
      have hnumber := toNumber_eq form hgoes
      refine h.bind (g := fun taken => taken.toNumber form checked) [] fault_of_toNumber ?_
      · refine .stop (congrArg Lexeme.spelling hnumber) (congrArg Lexeme.rest hnumber) ?_
        intro other hother
        have hclass : ∀ c, isBlank c = true → (c.isDigit || isNameStart c) = false := by
          intro c hc
          rw [isDigit_of_isBlank c hc, isNameStart_of_isBlank c hc]
          rfl
        have hother' : goesOn checked other = false := by
          rw [goesOn, ← hother.any_head? hclass]
          exact hgoes
        have hthere : Taken.toNumber { first text with rest := other } form checked = _ :=
          toNumber_eq form hother'
        have hhere := congrArg (fun lexeme : Lexeme => { lexeme with rest := other }) hnumber
        exact hthere.trans hhere.symm

theorem Settled.afterPoint
    (h : Settled first front text) :
    Settled (fun text => afterPoint (first text)) front text :=
  ((h.andThen (settled_anyDigits _)).andThen (settled_anyExponent _)).toNumber .float true

theorem settled_basedNumber
    (hdigit : ∀ c, isBlank c = true → isDigit c = false)
    (form : NumberForm)
    (mark : Char)
    (text : List Char) :
    Settled (basedNumber form isDigit mark) ['0', mark] text := by
  have hdigits := ((((settled_someDigits hdigit text).cons mark).cons '0').andThen
    (settled_anyBigMark _)).toNumber form true
  have hbased : ∀ {text : List Char}, (someDigits isDigit text).fault = none →
      basedNumber form isDigit mark text =
        ((((someDigits isDigit text).cons mark).cons '0').andThen anyBigMark).toNumber form
          true := by
    intro text h
    simp [basedNumber, Taken.cons, h]
  intro hfine other hother
  -- a fault of the digits is one of the number, here and in front of the other text
  have hfault : (someDigits isDigit text).fault = none := by
    cases h : (someDigits isDigit text).fault with
    | none =>
        rfl
    | some fault =>
        simp [Fine, basedNumber, Taken.cons, h, Lexeme.failed] at hfine
  rw [hbased hfault] at hfine hother ⊢
  obtain ⟨more, htext, hspelling, hvisible, hread⟩ := hdigits hfine other hother
  refine ⟨more, htext, hspelling, hvisible, ?_⟩
  have hfault' := fault_of_toNumber ((congrArg Lexeme.faults hread).trans hfine)
  rw [hbased (Option.or_eq_none_iff.1 hfault').1]
  exact hread

theorem settled_pointNumber
    (text : List Char) :
    Settled pointNumber ['.'] text :=
  (((settled_someDigits isDigit_of_isBlank text).cons '.').andThen
    (settled_anyExponent _)).toNumber .float true

/-- What has been taken before does not depend on what follows. -/
theorem settled_nothing
    (taken : Taken)
    (text : List Char) :
    Settled (fun other => { taken with rest := other }) taken.spelling text :=
  .stop rfl rfl fun _ _ => rfl

/-- What follows the digits of a whole number. -/
def wholeNumber (whole : Taken) : Lexeme :=
  match whole.rest with
  | d :: rest =>
      if d == '.' then afterPoint { whole with spelling := whole.spelling ++ [d], rest := rest }
      else if d == 'n' then (whole.andThen anyBigMark).toNumber .decimal true
      else if d == 'e' || d == 'E' then (whole.andThen anyExponent).toNumber .exponential true
      else whole.toNumber .decimal true
  | [] => whole.toNumber .decimal true

theorem fault_of_andThen
    {taken : Taken} {next : List Char → Taken} {form : NumberForm} {checked : Bool}
    (h : ((taken.andThen next).toNumber form checked).faults = []) :
    taken.fault = none :=
  (Option.or_eq_none_iff.1 (fault_of_toNumber h)).1

theorem fault_of_afterPoint
    {taken : Taken}
    (h : (afterPoint taken).faults = []) :
    taken.fault = none :=
  (Option.or_eq_none_iff.1 (fault_of_andThen h)).1

theorem fault_of_wholeNumber
    {whole : Taken}
    (h : (wholeNumber whole).faults = []) :
    whole.fault = none := by
  unfold wholeNumber at h
  split at h
  · split at h
    · have hfault := fault_of_afterPoint h
      exact hfault
    split at h
    · exact fault_of_andThen h
    split at h
    · exact fault_of_andThen h
    · exact fault_of_toNumber h
  · exact fault_of_toNumber h

theorem settled_wholeNumber
    (whole : Taken)
    (text : List Char) :
    Settled (fun other => wholeNumber { whole with rest := other }) whole.spelling text := by
  have hwhole := settled_nothing whole
  have hclass := eq_false_of_isBlank (p := ['.', 'n', 'e', 'E'].contains) (by decide)
  by_cases hhead : text.head?.any ['.', 'n', 'e', 'E'].contains = true
  · obtain ⟨c, rest, rfl, hmark⟩ := exists_cons_of_any_head? hhead
    have hother : ∀ {other : List Char}, SameFront (c :: rest) other →
        ∃ more, other = c :: more := fun h =>
      List.head?_eq_some_iff.1 ((h.head?_iff (isBlank_eq_false hclass hmark)).1 rfl)
    simp only [List.contains_cons, List.contains_nil, Bool.or_false, Bool.or_eq_true,
      beq_iff_eq] at hmark
    rcases hmark with rfl | rfl | hmark
    · have hpoint := settled_nothing { whole with spelling := whole.spelling ++ ['.'] } rest
      exact hpoint.afterPoint.head (fun _ _ => rfl) (Or.inl rfl)
    · refine (((hwhole _).andThen (settled_anyBigMark _)).toNumber .decimal true).congr ?_
      intro other h
      obtain ⟨more, rfl⟩ := hother h
      rfl
    · refine (((hwhole _).andThen (settled_anyExponent _)).toNumber .exponential true).congr ?_
      intro other h
      obtain ⟨more, rfl⟩ := hother h
      rcases hmark with rfl | rfl <;> rfl
  · refine ((hwhole text).toNumber .decimal true).congr fun other hother => ?_
    rw [hother.any_head? hclass] at hhead
    cases other <;> simp_all [wholeNumber]

theorem Settled.wholeNumber
    (h : Settled first front text) :
    Settled (fun text => wholeNumber (first text)) front text :=
  h.bind [] fault_of_wholeNumber (settled_wholeNumber _ _)

/-- The digits of a whole number that begins with a zero and a digit. -/
def afterZero (taken : Taken) : Lexeme :=
  if taken.spelling.all fun c => (octalValue? c).isSome then taken.toNumber .octal true
  else match taken.rest with
    | c :: rest =>
        if c == '.' then
          afterPoint { taken with spelling := taken.spelling ++ [c], rest := rest }
        else if c == 'e' || c == 'E' then
          (Taken.andThen { taken with spelling := taken.spelling ++ [c], rest := rest }
            exponentDigits).toNumber .exponential false
        else taken.toNumber .decimal true
    | [] => taken.toNumber .decimal true

theorem fault_of_afterZero
    {taken : Taken}
    (h : (afterZero taken).faults = []) :
    taken.fault = none := by
  unfold afterZero at h
  split at h
  · exact fault_of_toNumber h
  · split at h
    · split at h
      · have hfault := fault_of_afterPoint h
        exact hfault
      split at h
      · have hfault := fault_of_andThen h
        exact hfault
      · exact fault_of_toNumber h
    · exact fault_of_toNumber h

theorem settled_afterZero
    (taken : Taken)
    (text : List Char) :
    Settled (fun other => afterZero { taken with rest := other }) taken.spelling text := by
  have htaken := settled_nothing taken
  have hclass := eq_false_of_isBlank (p := ['.', 'e', 'E'].contains) (by decide)
  by_cases hoctal : (taken.spelling.all fun c => (octalValue? c).isSome) = true
  · exact ((htaken text).toNumber .octal true).congr fun _ _ => if_pos hoctal
  by_cases hhead : text.head?.any ['.', 'e', 'E'].contains = true
  · obtain ⟨c, rest, rfl, hmark⟩ := exists_cons_of_any_head? hhead
    have hnext := settled_nothing { taken with spelling := taken.spelling ++ [c] } rest
    simp only [List.contains_cons, List.contains_nil, Bool.or_false, Bool.or_eq_true,
      beq_iff_eq] at hmark
    rcases hmark with rfl | hmark
    · exact hnext.afterPoint.head (fun _ _ => if_neg hoctal) (Or.inl rfl)
    · refine ((hnext.andThen (settled_exponentDigits _)).toNumber .exponential false).head
        (fun other _ => ?_) (Or.inl ?_)
      · rcases hmark with rfl | rfl <;> exact if_neg hoctal
      · rcases hmark with rfl | rfl <;> rfl
  · refine ((htaken text).toNumber .decimal true).congr fun other hother => ?_
    rw [hother.any_head? hclass] at hhead
    refine (if_neg hoctal).trans ?_
    cases other <;> simp_all

/-- The characters of a class at the beginning of a text. -/
def takeClass (p : Char → Bool) (text : List Char) : Taken :=
  ⟨text.takeWhile p, text.dropWhile p, none⟩

theorem settled_takeClass
    {p : Char → Bool}
    (hp : ∀ c, isBlank c = true → p c = false)
    (text : List Char) :
    Settled (takeClass p) [] text := by
  have hnothing : ∀ {text : List Char}, text.head?.any p = false →
      takeClass p text = takeNothing text := by
    intro text h
    cases text <;> simp_all [takeClass, takeNothing]
  induction text with
  | nil =>
      exact .of_class hp hnothing nofun
  | cons c text ih =>
      refine .of_class hp hnothing ?_
      rintro d rest hd ⟨⟩
      refine ih.head_cons (fun other _ => ?_) (isBlank_eq_false hp hd)
      simp [takeClass, Taken.cons, hd]

theorem settled_zeroNumber
    (text : List Char) :
    Settled zeroNumber ['0'] text :=
  ((settled_takeClass isDigit_of_isBlank text).cons '0').bind [] fault_of_afterZero
    (settled_afterZero _ _)

/-- A number that begins with a zero. -/
theorem settled_readZero
    (text : List Char) :
    Settled (readNumber '0') ['0'] text := by
  have hbinary := eq_false_of_isBlank (p := fun e => e == '0' || e == '1') (by decide)
  have hoctal := eq_false_of_isBlank (p := fun e => (octalValue? e).isSome) (by decide)
  have hhexadecimal := eq_false_of_isBlank (p := fun e => (Text.hexValue? e).isSome) (by decide)
  have hclass := eq_false_of_isBlank
    (p := ['b', 'B', 'o', 'O', 'x', 'X', 'e', 'E', '.', 'n'].contains) (by decide)
  by_cases hhead :
      text.head?.any ['b', 'B', 'o', 'O', 'x', 'X', 'e', 'E', '.', 'n'].contains = true
  · obtain ⟨c, rest, rfl, hmark⟩ := exists_cons_of_any_head? hhead
    refine Settled.head (g := fun other => readNumber '0' (c :: other)) ?_ (fun _ _ => rfl)
      (Or.inl (isBlank_eq_false hclass hmark))
    have hnext := fun mark => settled_nothing ⟨['0', mark], [], none⟩ rest
    simp only [List.contains_cons, List.contains_nil, Bool.or_false, Bool.or_eq_true,
      beq_iff_eq] at hmark
    rcases hmark with rfl | rfl | rfl | rfl | rfl | rfl | rfl | rfl | rfl | rfl
    · exact settled_basedNumber hbinary .binary 'b' rest
    · exact settled_basedNumber hbinary .binary 'B' rest
    · exact settled_basedNumber hoctal .octal 'o' rest
    · exact settled_basedNumber hoctal .octal 'O' rest
    · exact settled_basedNumber hhexadecimal .hexadecimal 'x' rest
    · exact settled_basedNumber hhexadecimal .hexadecimal 'X' rest
    · exact ((hnext 'e').andThen (settled_exponentDigits _)).toNumber .exponential false
    · exact ((hnext 'E').andThen (settled_exponentDigits _)).toNumber .exponential false
    · exact (hnext '.').afterPoint
    · exact (hnext 'n').toNumber .decimal true
  by_cases hdigit : text.head?.any Char.isDigit = true
  · refine (settled_zeroNumber text).congr fun other hother => ?_
    rw [hother.any_head? hclass] at hhead
    rw [hother.any_head? isDigit_of_isBlank] at hdigit
    cases other <;> simp_all [readNumber]
  · refine ((settled_nothing ⟨['0'], [], none⟩ text).toNumber .decimal true).congr ?_
    intro other hother
    rw [hother.any_head? hclass] at hhead
    rw [hother.any_head? isDigit_of_isBlank] at hdigit
    cases other with
    | nil =>
        rfl
    | cons c other =>
        simp_all [readNumber]

theorem settled_readNumber
    (c : Char)
    (text : List Char) :
    Settled (readNumber c) [c] text := by
  by_cases hzero : c = '0'
  · obtain rfl := hzero
    exact settled_readZero text
  · refine ((settled_moreDigits isDigit_of_isBlank text).cons c).wholeNumber.congr fun _ _ => ?_
    exact if_neg (by simpa using hzero)

end Numbers

end Script
end FeatureProbes
