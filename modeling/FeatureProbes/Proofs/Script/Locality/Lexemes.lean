import FeatureProbes.Proofs.Script.Lexemes
import FeatureProbes.Proofs.Script.Locality.Numbers
import Mathlib.Data.List.Find

/-!
# How far any token reaches

Words, strings, templates, regular expressions and punctuators are the same in front of whatever
begins like the text after them, and so is any token.
-/

namespace FeatureProbes
namespace Script

open Text Reading

/-! ## Words -/

section Words

/-- What a name goes on with outside of escapes. -/
def inName (first : Bool) (c : Char) : Bool :=
  (if first then isNameStart c else isNamePart c) || c == '\\'

theorem inName_of_isBlank
    (first : Bool) :
    ∀ c, isBlank c = true → inName first c = false := by
  intro c h
  have hescape : (c == '\\') = false := eq_false_of_isBlank (p := (· == '\\')) (by decide) c h
  rw [inName, hescape, isNameStart_of_isBlank c h, isNamePart_of_isBlank c h, ite_self]
  rfl

theorem isBlank_of_hexValue?
    {c : Char} {digit : Nat}
    (h : Text.hexValue? c = some digit) :
    isBlank c = false :=
  isBlank_eq_false (eq_false_of_isBlank (p := fun e => (Text.hexValue? e).isSome) (by decide))
    (Option.isSome_of_eq_some h)

theorem readName_of_head?
    {first : Bool} {text : List Char}
    (h : text.head?.any (inName first) = false) :
    readName .plain first text = ⟨[], [], text, none⟩ := by
  cases text with
  | nil =>
      simp [readName]
  | cons c text =>
      rw [List.head?_cons, Option.any_some, inName, Bool.or_eq_false_iff] at h
      rw [readName, if_neg (by simp [h.1]), if_neg (by simp [h.2])]

/-- A name goes on up to a character that cannot stand in it, or up to a bad escape. -/
theorem settled_readName
    (mode : NameMode)
    (first : Bool)
    (text : List Char) :
    Settled (readName mode first) [] text := by
  have hstop : ∀ {first : Bool} {text : List Char}, text.head?.any (inName first) = false →
      Settled (readName .plain first) [] text := by
    intro first text h
    have hread := readName_of_head? h
    refine .stop (congrArg NameRead.spelling hread) (congrArg NameRead.rest hread) ?_
    intro other hother
    rw [hread, readName_of_head? ((hother.any_head? (inName_of_isBlank first)).symm.trans h)]
    rfl
  have hput : ∀ {mode next : NameMode} {first first' : Bool} {c : Char} {rest : List Char}
      (name : List Char), Settled (readName next first') [] rest → isBlank c = false →
      (∀ other, readName mode first (c :: other) = (readName next first' other).cons c name) →
      Settled (readName mode first) [] (c :: rest) := by
    intro mode next first first' c rest name h hc hread
    exact h.put (fun other _ => hread other) id rfl rfl (fun _ => rfl) (Or.inl hc)
  fun_induction readName mode first text with
  | case1 =>
      exact hstop rfl
  | case3 first c rest hc ih =>
      have hvisible := isBlank_eq_false (inName_of_isBlank first) (by rw [inName, hc, Bool.true_or])
      exact hput [c] ih hvisible fun other => by rw [readName, if_pos hc]
  | case4 first c rest hc hescape ih =>
      obtain rfl : c = '\\' := by simpa using hescape
      exact hput [] ih rfl fun other => by rw [readName, if_neg hc, if_pos hescape]
  | case5 first c rest hc hescape =>
      refine hstop ?_
      simp_all [inName]
  | case6 first c rest hu ih =>
      obtain rfl : c = 'u' := by simpa using hu
      exact hput [] ih rfl fun other => by rw [readName, if_pos hu]
  | case8 first c rest hbrace ih =>
      obtain rfl : c = '\x7b' := by simpa using hbrace
      exact hput [] ih rfl fun other => by rw [readName, if_pos hbrace]
  | case18 first c rest code hdigit hbrace d hd ih =>
      obtain rfl : c = '\x7d' := by simpa using hbrace
      exact hput [d] ih rfl fun other => by simp [readName, hdigit, hd]
  | case12 left value first c rest digit hdigit hleft d hd ih =>
      refine hput [d] ih (isBlank_of_hexValue? hdigit) fun other => ?_
      simp [readName, hdigit, hleft, hd]
  | case10 | case14 | case15 | case17 =>
      -- a digit of an escape that goes on
      refine hput [] ‹_› (isBlank_of_hexValue? ‹_›) fun other => ?_
      simp [readName, *]
  | _ =>
      refine .of_not_fine ?_
      simp_all [readName, Fine]

theorem settled_toLexeme
    (kind : TokenKind)
    (leading text : List Char) :
    Settled (fun text => (readName .plain true text).toLexeme kind leading) leading text := by
  have hname := (settled_readName .plain true text).map
    (f := fun read => read.toLexeme kind leading) leading Option.toList_eq_nil_iff.1 rfl rfl
    fun _ => rfl
  rwa [List.append_nil] at hname

theorem settled_readPrivateName
    (text : List Char) :
    Settled readPrivateName ['#'] text := by
  by_cases hhead : text.head?.any (inName true) = true
  · refine (settled_toLexeme .privateName ['#'] text).congr fun other hother => ?_
    rw [hother.any_head? (inName_of_isBlank true)] at hhead
    cases other <;> simp_all [readPrivateName, inName]
  · refine .of_not_fine ?_
    cases text <;> simp_all [readPrivateName, inName, Fine, Lexeme.failed]

end Words

/-! ## Strings and templates -/

section Texts

variable {template : Bool} {mark : Char}

/-- A text that ends as it should has its closing mark. -/
theorem spelling_readText_ne_nil
    {mode : EscapeMode} {text : List Char}
    (h : (readText template mark mode text).ending ≠ .unterminated) :
    (readText template mark mode text).spelling ≠ [] := by
  cases text with
  | nil =>
      exact absurd rfl h
  | cons c text =>
      unfold readText
      repeat' split
      all_goals simp [TextRead.cons]

/-- A string or a piece of a template is over at its mark, whatever follows. -/
theorem settled_readText
    (hmark : isBlank mark = false)
    (mode : EscapeMode)
    (text : List Char) :
    Settled (readText template mark mode) [] text := by
  have hput : ∀ {mode next : EscapeMode} {c : Char} {rest : List Char} (value : List Char)
      (bad : Bool), Settled (readText template mark next) [] rest →
      (∀ other, SameFront rest other → readText template mark mode (c :: other) =
        (readText template mark next other).cons c value bad) →
      Settled (readText template mark mode) [] (c :: rest) := by
    intro mode next c rest value bad h hread
    by_cases hfine : (readText template mark next rest).ending = .unterminated
    · refine .of_not_fine ?_
      rw [hread rest (.refl rest)]
      exact fun hnot => hnot hfine
    · exact h.put hread id rfl rfl (fun _ => rfl) (Or.inr (spelling_readText_ne_nil hfine))
  -- a dollar sign is looked behind before it is taken
  have hbrace : ∀ {rest other : List Char}, SameFront rest other →
      (other.head? == some '\x7b') = (rest.head? == some '\x7b') := by
    intro rest other h
    rw [Bool.eq_iff_iff, beq_iff_eq, beq_iff_eq, h.head?_iff rfl]
  fun_induction readText template mark mode text with
  | case1 =>
      exact .of_not_fine fun hnot => hnot (by rw [readText])
  | case2 mode c rest step hstep ih =>
      exact hput step.value step.bad ih fun other _ => by rw [readText, hstep]
  | case3 mode c rest hstep pending bad hend hc =>
      obtain rfl : c = mark := by simpa using hc
      have hclosed : Settled (fun other => (⟨[c], pending, bad, .closed, other⟩ : TextRead))
          ([] ++ [c]) rest := .stop rfl rfl fun _ _ => rfl
      refine hclosed.head (fun other _ => ?_) (Or.inl hmark)
      simp [readText, hstep, hend]
  | case4 mode c rest hstep pending bad hend hc hline =>
      refine .of_not_fine fun hnot => hnot ?_
      simp [readText, hstep, hend, hc, hline]
  | case5 mode c rest hstep pending bad hend hc hline hdollar =>
      -- the dollar sign and the brace after it are taken together
      have hopen : rest.head? = some '\x7b' := by
        simp only [Bool.and_eq_true, beq_iff_eq] at hdollar
        exact hdollar.2
      have hvisible : isBlank c = false := by
        simp only [Bool.and_eq_true, beq_iff_eq] at hdollar
        rw [hdollar.1.2]
        rfl
      obtain ⟨more, rfl⟩ := List.head?_eq_some_iff.1 hopen
      have hdone : Settled
          (fun other => (⟨[c, '\x7b'], pending, bad, .substitution, other⟩ : TextRead))
          ([c] ++ ['\x7b']) more := .stop rfl rfl fun _ _ => rfl
      have hmore : Settled
          (fun other => (⟨[c, '\x7b'], pending, bad, .substitution, other.tail⟩ : TextRead))
          ([] ++ [c]) ('\x7b' :: more) := hdone.head (fun _ _ => rfl) (Or.inl rfl)
      refine hmore.head (fun other hother => ?_) (Or.inl hvisible)
      rw [readText, hstep]
      simp only [hend, hbrace hother]
      rw [if_neg hc, if_neg hline, if_pos hdollar]
  | case6 mode c rest hstep pending bad hend hc hline hdollar hescape ih =>
      refine hput pending bad ih fun other hother => ?_
      rw [readText, hstep]
      simp only [hend, hbrace hother]
      rw [if_neg hc, if_neg hline, if_neg hdollar, if_pos hescape]
  | case7 mode c rest hstep pending bad hend hc hline hdollar hescape hreturn ih =>
      refine hput (pending ++ ['\n']) bad ih fun other hother => ?_
      rw [readText, hstep]
      simp only [hend, hbrace hother]
      rw [if_neg hc, if_neg hline, if_neg hdollar, if_neg hescape, if_pos hreturn]
  | case8 mode c rest hstep pending bad hend hc hline hdollar hescape hreturn ih =>
      refine hput (pending ++ [c]) bad ih fun other hother => ?_
      rw [readText, hstep]
      simp only [hend, hbrace hother]
      rw [if_neg hc, if_neg hline, if_neg hdollar, if_neg hescape, if_neg hreturn]

theorem settled_readString
    {mark : Char}
    (hmark : isBlank mark = false)
    (text : List Char) :
    Settled (readString mark) [mark] text := by
  have hread : Settled (readText false mark .plain) [] text := settled_readText hmark .plain text
  refine hread.lift [mark] (fun hfine hend => ?_) ?_ ?_ fun whole other hwhole => ?_
  · simp [readString, hend, Fine] at hfine
  · unfold readString
    dsimp only
    split <;> rfl
  · unfold readString
    dsimp only
    split <;> rfl
  · unfold readString
    rw [hwhole]
    obtain ⟨spelling, value, bad, ending, rest⟩ := readText false mark .plain text
    cases ending <;> rfl

theorem settled_readTemplate
    (opens : Bool)
    (mark : Char)
    (text : List Char) :
    Settled (readTemplate opens mark) [mark] text := by
  have hread : Settled (readText true '\x60' .plain) [] text := settled_readText rfl .plain text
  refine hread.lift [mark] (fun hfine hend => ?_) ?_ ?_ fun whole other hwhole => ?_
  · simp [readTemplate, hend, Fine, Lexeme.failed] at hfine
  · unfold readTemplate
    dsimp only
    split <;> rfl
  · unfold readTemplate
    dsimp only
    split <;> rfl
  · unfold readTemplate
    rw [hwhole]
    obtain ⟨spelling, value, bad, ending, rest⟩ := readText true '\x60' .plain text
    cases ending <;> rfl

end Texts

/-! ## Regular expressions -/

section Patterns

theorem readPattern_ne_nil
    {inClass escaped : Bool} {text : List Char}
    (h : (readPattern inClass escaped text).fault = none) :
    (readPattern inClass escaped text).spelling ≠ [] := by
  cases text with
  | nil =>
      cases h
  | cons c text =>
      unfold readPattern
      repeat' split
      all_goals simp [Taken.cons]

/-- A pattern is over at its slash, whatever follows. -/
theorem settled_readPattern
    (inClass escaped : Bool)
    (text : List Char) :
    Settled (readPattern inClass escaped) [] text := by
  have hput : ∀ {inClass escaped inClass' escaped' : Bool} {c : Char} {rest : List Char},
      Settled (readPattern inClass' escaped') [] rest →
      (∀ other, readPattern inClass escaped (c :: other) =
        (readPattern inClass' escaped' other).cons c) →
      Settled (readPattern inClass escaped) [] (c :: rest) := by
    intro inClass escaped inClass' escaped' c rest h hread
    by_cases hfine : (readPattern inClass' escaped' rest).fault = none
    · exact h.put (fun other _ => hread other) id rfl rfl (fun _ => rfl)
        (Or.inr (readPattern_ne_nil hfine))
    · refine .of_not_fine ?_
      rw [hread rest]
      exact hfine
  fun_induction readPattern inClass escaped text with
  | case1 =>
      exact .of_not_fine (Option.some_ne_none _)
  | case2 inClass escaped c rest hline =>
      refine .of_not_fine ?_
      rw [readPattern, if_pos hline]
      exact Option.some_ne_none _
  | case3 inClass c rest hline ih =>
      exact hput ih fun other => by rw [readPattern, if_neg hline, if_pos rfl]
  | case4 inClass escaped c rest hline hescaped hslash =>
      obtain rfl : c = '/' := by
        simp only [Bool.and_eq_true, beq_iff_eq] at hslash
        exact hslash.1
      have hdone : Settled (fun other => (⟨['/'], other, none⟩ : Taken)) ([] ++ ['/']) rest :=
        settled_nothing ⟨['/'], [], none⟩ rest
      refine hdone.head (fun other _ => ?_) (Or.inl rfl)
      rw [readPattern, if_neg hline, if_neg hescaped, if_pos hslash]
  | case5 inClass escaped c rest hline hescaped hslash hopen ih =>
      exact hput ih fun other => by
        rw [readPattern, if_neg hline, if_neg hescaped, if_neg hslash, if_pos hopen]
  | case6 inClass escaped c rest hline hescaped hslash hopen hclose ih =>
      exact hput ih fun other => by
        rw [readPattern, if_neg hline, if_neg hescaped, if_neg hslash, if_neg hopen, if_pos hclose]
  | case7 inClass escaped c rest hline hescaped hslash hopen hclose ih =>
      exact hput ih fun other => by
        rw [readPattern, if_neg hline, if_neg hescaped, if_neg hslash, if_neg hopen, if_neg hclose]

/-- The flags of a pattern that has been read. -/
def withFlags (opening : List Char) (pattern : Taken) : Lexeme :=
  let flags := pattern.rest.takeWhile isFlagChar
  let spelling := opening ++ pattern.spelling ++ flags
  ⟨.regularExpression, String.ofList spelling, spelling, pattern.rest.dropWhile isFlagChar,
    false, false, pattern.fault.toList ++ flagFaults [] flags⟩

theorem settled_withFlags
    (opening : List Char)
    (pattern : Taken)
    (text : List Char) :
    Settled (fun other => withFlags opening { pattern with rest := other })
      (opening ++ pattern.spelling) text := by
  have hflags := settled_takeClass (p := isFlagChar) (eq_false_of_isBlank (by decide)) text
  have hlift : Settled (fun other => withFlags opening { pattern with rest := other })
      (opening ++ pattern.spelling ++ []) text := by
    refine hflags.lift _ (fun _ => rfl) rfl rfl fun whole other hwhole => ?_
    have htake := congrArg Taken.spelling hwhole
    have hdrop := congrArg Taken.rest hwhole
    simp only [takeClass, before] at htake hdrop
    simp [withFlags, before, htake, hdrop]
  rwa [List.append_nil] at hlift

theorem settled_readRegularExpression
    (opening text : List Char) :
    Settled (readRegularExpression opening) opening text := by
  have hbind : Settled (readRegularExpression opening) (opening ++ []) text :=
    (settled_readPattern false false text).bind (g := withFlags opening) opening
      (fun hfine => Option.toList_eq_nil_iff.1 (List.append_eq_nil_iff.1 hfine).1)
      (settled_withFlags opening _ _)
  rwa [List.append_nil] at hbind

end Patterns

/-! ## Punctuators -/

section Punctuators

variable {text other : List Char}

theorem forall_marks_visible
    {marks : List String}
    (h : (marks.all fun mark => mark.toList.all fun c => !isBlank c) = true) :
    ∀ mark ∈ marks, ∀ c ∈ mark.toList, isBlank c = false :=
  fun mark hmark => forall_visible (List.all_eq_true.1 h mark hmark)

theorem leading?_of_sameFront
    {candidates : List String}
    (hvisible : ∀ candidate ∈ candidates, ∀ c ∈ candidate.toList, isBlank c = false)
    (h : SameFront text other) :
    leading? candidates text = leading? candidates other :=
  List.find?_congr fun candidate hmem => h.isPrefixOf_eq (hvisible candidate hmem)

/-- The first of some candidates is found again in front of whatever begins like the text after
it. -/
theorem leading?_append
    {candidates : List String} {mark : String}
    (hvisible : ∀ candidate ∈ candidates, ∀ c ∈ candidate.toList, isBlank c = false)
    (h : leading? candidates text = some mark)
    (hother : SameFront (text.drop mark.length) other) :
    leading? candidates (mark.toList ++ other) = some mark := by
  have hsame := hother.append mark.toList
  rw [toList_append_drop_of_leading? h] at hsame
  rw [← leading?_of_sameFront hvisible hsame, h]

theorem isQuestionPoint_iff :
    isQuestionPoint text = true ↔ ∃ c, c.isDigit = true ∧ ['?', '.'] ++ [c] <+: text := by
  unfold isQuestionPoint
  split
  · simp
  · rename_i hnone
    refine iff_of_false nofun ?_
    rintro ⟨c, -, rest, rfl⟩
    exact hnone c rest rfl

theorem isQuestionPoint_of_sameFront
    (h : SameFront text other) :
    isQuestionPoint text = isQuestionPoint other := by
  rw [Bool.eq_iff_iff, isQuestionPoint_iff, isQuestionPoint_iff,
    h.exists_prefix_iff isDigit_of_isBlank (forall_visible rfl)]

/-- The punctuator at the beginning of a text. -/
def punctuator? (text : List Char) : Option String :=
  if isQuestionPoint text then some "?" else leading? punctuators text

theorem punctuator?_of_sameFront
    (h : SameFront text other) :
    punctuator? text = punctuator? other := by
  rw [punctuator?, punctuator?, isQuestionPoint_of_sameFront h,
    leading?_of_sameFront (forall_marks_visible (by decide)) h]

/-- A text with a mark at its beginning has it there in front of anything else, too. -/
theorem settled_mark
    {mark : String}
    (htakes : mark.toList ++ text.drop mark.length = text)
    (hvisible : ∀ c ∈ mark.toList, isBlank c = false) :
    Settled (fun other => Lexeme.plain .punctuator mark.toList (other.drop mark.length)) []
      text := by
  intro _ other _
  refine ⟨mark.toList, htakes.symm, rfl, .of_forall hvisible, ?_⟩
  have hdrop : (mark.toList ++ other).drop mark.length = other := by
    rw [← String.length_toList, List.drop_left]
  exact congrArg (Lexeme.plain .punctuator mark.toList) hdrop

theorem readPunctuator_of_some
    {mark : String}
    (h : punctuator? text = some mark) :
    readPunctuator text = .plain .punctuator mark.toList (text.drop mark.length) := by
  unfold punctuator? at h
  unfold readPunctuator
  rw [h]

theorem readPunctuator_of_none
    {c : Char} {rest : List Char}
    (h : punctuator? (c :: rest) = none) :
    readPunctuator (c :: rest) = .failed (.invalidCharacter c) [c] rest := by
  unfold punctuator? at h
  unfold readPunctuator
  rw [h]

theorem settled_readPunctuator
    (hne : text ≠ []) :
    Settled readPunctuator [] text := by
  cases hmark : punctuator? text with
  | none =>
      refine .of_not_fine ?_
      obtain ⟨c, rest, rfl⟩ := List.exists_cons_of_ne_nil hne
      rw [readPunctuator_of_none hmark]
      exact List.cons_ne_nil _ _
  | some mark =>
      have hmem : mark ∈ "?" :: punctuators := by
        unfold punctuator? at hmark
        split at hmark
        · simp_all
        · exact List.mem_cons_of_mem _ (List.mem_of_find?_eq_some hmark)
      have hvisible := forall_marks_visible (by decide) mark hmem
      have htakes := (fits_readPunctuator text).takes
      rw [readPunctuator_of_some hmark] at htakes
      refine (settled_mark htakes hvisible).congr fun other hother => ?_
      rw [punctuator?_of_sameFront hother] at hmark
      exact readPunctuator_of_some hmark

end Punctuators

/-! ## Any token -/

/-- What numbers, strings, templates and private names begin with. -/
def inMarks (c : Char) : Bool :=
  c.isDigit || ['"', '\'', '\x60', '#'].contains c

theorem inMarks_of_isBlank : ∀ c, isBlank c = true → inMarks c = false :=
  eq_false_of_isBlank (by decide)

theorem readLexeme_cons
    {c : Char}
    (hname : inName true c = false)
    (rest : List Char) :
    readLexeme (c :: rest) =
      if c.isDigit then readNumber c rest
      else if c == '"' || c == '\'' then readString c rest
      else if c == '\x60' then readTemplate true c rest
      else if c == '#' then readPrivateName rest
      else if c == '.' && (rest.head?.any Char.isDigit) then pointNumber rest
      else readPunctuator (c :: rest) :=
  if_neg (ne_true_of_eq_false hname)

theorem settled_marked
    {c : Char}
    (hname : inName true c = false)
    (hmark : inMarks c = true)
    (rest : List Char) :
    Settled (fun other => readLexeme (c :: other)) [c] rest := by
  have hread := readLexeme_cons hname
  by_cases hdigit : c.isDigit = true
  · refine (settled_readNumber c rest).congr fun other _ => ?_
    rw [hread, if_pos hdigit]
  have hcases : (c = '"' ∨ c = '\'') ∨ c = '\x60' ∨ c = '#' := by
    simpa [inMarks, hdigit, or_assoc] using hmark
  rcases hcases with (rfl | rfl) | rfl | rfl
  · exact (settled_readString rfl rest).congr fun other _ => hread other
  · exact (settled_readString rfl rest).congr fun other _ => hread other
  · exact (settled_readTemplate true '\x60' rest).congr fun other _ => hread other
  · exact (settled_readPrivateName rest).congr fun other _ => hread other

/-- The reader of a token takes the same characters in front of whatever begins like the text after
the token. -/
theorem settled_readLexeme
    {text : List Char}
    (hne : text ≠ []) :
    Settled readLexeme [] text := by
  by_cases hname : text.head?.any (inName true) = true
  · refine (settled_toLexeme .word [] text).congr fun other hother => ?_
    rw [hother.any_head? (inName_of_isBlank true)] at hname
    cases other <;> simp_all [readLexeme, inName, readWord]
  by_cases hmark : text.head?.any inMarks = true
  · obtain ⟨c, rest, rfl, hclass⟩ := exists_cons_of_any_head? hmark
    exact (settled_marked (by simpa using hname) hclass rest).head (fun _ _ => rfl)
      (Or.inl (isBlank_eq_false inMarks_of_isBlank hclass))
  by_cases hpoint : ∃ c, c.isDigit = true ∧ ['.'] ++ [c] <+: text
  · obtain ⟨c, hdigit, rest, rfl⟩ := hpoint
    refine (settled_pointNumber (c :: rest)).head (fun other hother => ?_) (Or.inl rfl)
    have hhead := (hother.any_head? isDigit_of_isBlank).symm.trans hdigit
    rw [readLexeme_cons rfl]
    simp [hhead]
  · refine (settled_readPunctuator hne).congr fun other hother => ?_
    rw [hother.any_head? (inName_of_isBlank true), Bool.not_eq_true] at hname
    rw [hother.any_head? inMarks_of_isBlank, Bool.not_eq_true] at hmark
    rw [hother.exists_prefix_iff isDigit_of_isBlank (forall_visible rfl)] at hpoint
    cases other with
    | nil =>
        rfl
    | cons c rest =>
        have hsecond : (c == '.' && rest.head?.any Char.isDigit) = false := by
          rw [Bool.eq_false_iff, Ne, Bool.and_eq_true, beq_iff_eq, Option.any_eq_true]
          rintro ⟨rfl, d, hd, hdigit⟩
          obtain ⟨more, rfl⟩ := List.head?_eq_some_iff.1 hd
          exact hpoint ⟨d, hdigit, more, rfl⟩
        simp only [List.head?_cons, Option.any_some, inMarks] at hname hmark
        rw [readLexeme_cons hname]
        simp_all

end Script
end FeatureProbes
