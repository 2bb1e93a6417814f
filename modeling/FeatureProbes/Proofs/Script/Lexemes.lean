import FeatureProbes.Script.Grammar

/-!
# What the tokens of a script take

A lexeme is a piece of the text: its characters and the text after it together are the text that
was read, whatever kind it is of and whatever was wrong with it.  So the offsets of a token are the
offsets of its characters.

A word spells its name in front of what follows, and the characters of a punctuator are its text.
-/

namespace FeatureProbes
namespace Script

/-! ## Blanks and comments -/

theorem rest_skipTrivia_suffix
    (mode : TriviaMode)
    (count : Nat)
    (newline : Bool)
    (text : List Char) :
    (skipTrivia mode count newline text).rest <:+ text := by
  fun_induction skipTrivia mode count newline text with
  | case1 | case8 => exact List.suffix_refl _
  | _ => exact List.IsSuffix.trans ‹_› (List.suffix_cons _ _)

theorem count_skipTrivia_add_length
    (mode : TriviaMode)
    (count : Nat)
    (newline : Bool)
    (text : List Char) :
    (skipTrivia mode count newline text).count + (skipTrivia mode count newline text).rest.length =
      count + text.length := by
  fun_induction skipTrivia mode count newline text with
  | case1 | case8 => rfl
  | _ =>
      simp only [List.length_cons] at *
      omega

/-- Skipping counts the characters that it takes. -/
theorem exists_eq_append_skipTrivia
    (mode : TriviaMode)
    (newline : Bool)
    (count : Nat)
    (text : List Char) :
    ∃ skipped, text = skipped ++ (skipTrivia mode count newline text).rest ∧
      (skipTrivia mode count newline text).count = count + skipped.length := by
  obtain ⟨skipped, htext⟩ := rest_skipTrivia_suffix mode count newline text
  refine ⟨skipped, htext.symm, ?_⟩
  have hcount := count_skipTrivia_add_length mode count newline text
  have hlength := congrArg List.length htext
  rw [List.length_append] at hlength
  omega

/-! ## Lexemes -/

/-- A word spells a name in front of a rest: it is read as the name, and the rest is not. -/
def Spells
    (word : List Char)
    (name : String)
    (rest : List Char) : Prop :=
  word ≠ [] ∧ readName .plain true (word ++ rest) = ⟨name.toList, word, rest, none⟩

/-- A lexeme stands at the beginning of a text.  A word spells its name, and a punctuator is its own
text. -/
structure Lexeme.Fits
    (lexeme : Lexeme)
    (text : List Char) : Prop where
  takes : lexeme.spelling ++ lexeme.rest = text
  word : lexeme.kind = .word → lexeme.faults = [] →
    Spells lexeme.spelling lexeme.text lexeme.rest
  punctuator : lexeme.kind = .punctuator → lexeme.text.toList = lexeme.spelling

section Fits

variable {lexeme : Lexeme} {text : List Char} {taken : Taken}

theorem Lexeme.fits_of_kind
    (htakes : lexeme.spelling ++ lexeme.rest = text)
    (hword : lexeme.kind ≠ .word)
    (hpunctuator : lexeme.kind ≠ .punctuator) :
    lexeme.Fits text :=
  ⟨htakes, fun h => absurd h hword, fun h => absurd h hpunctuator⟩

theorem Lexeme.fits_plain
    {kind : TokenKind} {spelling rest : List Char}
    (htakes : spelling ++ rest = text)
    (hkind : kind ≠ .word) :
    (Lexeme.plain kind spelling rest).Fits text :=
  ⟨htakes, fun h => absurd h hkind, fun _ => String.toList_ofList⟩

theorem Lexeme.fits_failed
    {fault : Fault} {spelling rest : List Char}
    (htakes : spelling ++ rest = text) :
    (Lexeme.failed fault spelling rest).Fits text :=
  Lexeme.fits_of_kind htakes (by simp [Lexeme.failed]) (by simp [Lexeme.failed])

/-! ## Words -/

theorem spelling_append_rest_readName
    (mode : NameMode)
    (first : Bool)
    (text : List Char) :
    (readName mode first text).spelling ++ (readName mode first text).rest = text := by
  fun_induction readName mode first text <;> simp_all [NameRead.cons]

theorem fits_readWord
    {c : Char} {rest : List Char}
    (hstart : (isNameStart c || c == '\\') = true) :
    (readWord (c :: rest)).Fits (c :: rest) := by
  have htakes := spelling_append_rest_readName .plain true (c :: rest)
  refine ⟨htakes, fun _ hfaults => ⟨?_, ?_⟩, ?_⟩
  · simp only [readWord, NameRead.toLexeme, List.nil_append, readName, if_true]
    simp only [Bool.or_eq_true] at hstart
    split
    · simp [NameRead.cons]
    · rename_i hname
      rw [if_pos (hstart.resolve_left hname)]
      simp [NameRead.cons]
  · have hfault : (readName .plain true (c :: rest)).fault = none :=
      Option.toList_eq_nil_iff.1 hfaults
    refine (congrArg (readName .plain true) htakes).trans ?_
    simp [readWord, NameRead.toLexeme, ← hfault]
  · intro h
    cases h

theorem fits_readPrivateName
    (text : List Char) :
    (readPrivateName text).Fits ('#' :: text) := by
  unfold readPrivateName
  split
  · exact Lexeme.fits_failed rfl
  · split
    · exact Lexeme.fits_of_kind
        (congrArg _ (spelling_append_rest_readName .plain true _))
        (by simp [NameRead.toLexeme]) (by simp [NameRead.toLexeme])
    · exact Lexeme.fits_failed rfl

/-! ## Numbers -/

/-- Characters are taken from the beginning of a text. -/
def Taken.From (taken : Taken) (text : List Char) : Prop :=
  taken.spelling ++ taken.rest = text

theorem Taken.From.cons
    (h : taken.From text)
    (c : Char) :
    (taken.cons c).From (c :: text) :=
  congrArg (c :: ·) h

theorem Taken.From.andThen
    {next : List Char → Taken}
    (h : taken.From text)
    (hnext : ∀ rest, (next rest).From rest) :
    (taken.andThen next).From text := by
  rw [Taken.From, Taken.andThen, List.append_assoc, hnext taken.rest, h]

theorem from_moreDigits
    (isDigit : Char → Bool)
    (text : List Char) :
    (moreDigits isDigit text).From text := by
  unfold Taken.From
  fun_induction moreDigits isDigit text <;> simp_all [Taken.cons, takeNothing]

theorem from_someDigits
    (isDigit : Char → Bool)
    (text : List Char) :
    (someDigits isDigit text).From text := by
  unfold someDigits
  split
  · split
    · exact (from_moreDigits isDigit _).cons _
    · rfl
  · rfl

theorem from_anyDigits
    (text : List Char) :
    (anyDigits text).From text := by
  unfold anyDigits
  split
  · split
    · exact (from_moreDigits _ _).cons _
    · rfl
  · rfl

theorem from_exponentDigits
    (text : List Char) :
    (exponentDigits text).From text := by
  unfold exponentDigits
  split
  · split
    · exact (from_someDigits _ _).cons _
    · exact from_someDigits _ _
  · rfl

theorem from_anyExponent
    (text : List Char) :
    (anyExponent text).From text := by
  unfold anyExponent
  split
  · split
    · exact (from_exponentDigits _).cons _
    · rfl
  · rfl

theorem from_anyBigMark
    (text : List Char) :
    (anyBigMark text).From text := by
  unfold anyBigMark
  split
  · split <;> rfl
  · rfl

theorem Taken.From.fits_toNumber
    (h : taken.From text)
    (form : NumberForm)
    (checked : Bool) :
    (taken.toNumber form checked).Fits text := by
  unfold Taken.toNumber
  dsimp only
  split
  · rename_i c rest hrest
    split
    · refine Lexeme.fits_of_kind ?_ (by simp) (by simp)
      rw [← h, hrest]
      simp
    · exact Lexeme.fits_of_kind h (by simp [Lexeme.plain]) (by simp [Lexeme.plain])
  · exact Lexeme.fits_of_kind h (by simp [Lexeme.plain]) (by simp [Lexeme.plain])

theorem Taken.From.fits_afterPoint
    (h : taken.From text) :
    (afterPoint taken).Fits text :=
  ((h.andThen from_anyDigits).andThen from_anyExponent).fits_toNumber _ _

theorem fits_basedNumber
    (form : NumberForm)
    (isDigit : Char → Bool)
    (mark : Char)
    (text : List Char) :
    (basedNumber form isDigit mark text).Fits ('0' :: mark :: text) := by
  have hdigits := ((from_someDigits isDigit text).cons mark).cons '0'
  unfold basedNumber
  dsimp only
  split
  · exact Lexeme.fits_failed hdigits
  · exact (hdigits.andThen from_anyBigMark).fits_toNumber _ _

theorem fits_pointNumber
    (text : List Char) :
    (pointNumber text).Fits ('.' :: text) :=
  (((from_someDigits _ text).cons '.').andThen from_anyExponent).fits_toNumber _ _

theorem fits_zeroNumber
    (text : List Char) :
    (zeroNumber text).Fits ('0' :: text) := by
  have hdigits : Taken.From
      ⟨'0' :: text.takeWhile Char.isDigit, text.dropWhile Char.isDigit, none⟩ ('0' :: text) := by
    simp [Taken.From]
  unfold zeroNumber
  dsimp only
  split
  · exact hdigits.fits_toNumber _ _
  · split
    · rename_i c rest hrest
      have hmark : Taken.From ⟨'0' :: text.takeWhile Char.isDigit ++ [c], rest, none⟩
          ('0' :: text) := by
        rw [hrest] at hdigits
        simpa [Taken.From] using hdigits
      split
      · exact hmark.fits_afterPoint
      · split
        · exact (hmark.andThen from_exponentDigits).fits_toNumber _ _
        · exact hdigits.fits_toNumber _ _
    · exact hdigits.fits_toNumber _ _

theorem fits_readNumber
    (c : Char)
    (text : List Char) :
    (readNumber c text).Fits (c :: text) := by
  have hwhole := (from_moreDigits Char.isDigit text).cons c
  unfold readNumber
  dsimp only
  split
  · rename_i hc
    obtain rfl : c = '0' := by simpa using hc
    split
    · rename_i d rest
      have hmark : Taken.From ⟨['0', d], rest, none⟩ ('0' :: d :: rest) := rfl
      split
      · exact fits_basedNumber _ _ _ _
      split
      · exact fits_basedNumber _ _ _ _
      split
      · exact fits_basedNumber _ _ _ _
      split
      · exact (hmark.andThen from_exponentDigits).fits_toNumber _ _
      split
      · exact hmark.fits_afterPoint
      split
      · exact hmark.fits_toNumber _ _
      split
      · exact fits_zeroNumber _
      · exact Taken.From.fits_toNumber rfl _ _
    · exact Lexeme.fits_plain rfl (by simp)
  · split
    · rename_i d rest hrest
      have hmark : Taken.From
          { (moreDigits Char.isDigit text).cons c with
            spelling := ((moreDigits Char.isDigit text).cons c).spelling ++ [d]
            rest := rest } (c :: text) := by
        rw [← hwhole, hrest]
        simp [Taken.From]
      split
      · exact hmark.fits_afterPoint
      split
      · exact (hwhole.andThen from_anyBigMark).fits_toNumber _ _
      split
      · exact (hwhole.andThen from_anyExponent).fits_toNumber _ _
      · exact hwhole.fits_toNumber _ _
    · exact hwhole.fits_toNumber _ _

/-! ## Strings, templates and regular expressions -/

theorem spelling_append_rest_readText
    (template : Bool)
    (mark : Char)
    (mode : EscapeMode)
    (text : List Char) :
    (readText template mark mode text).spelling ++ (readText template mark mode text).rest =
      text := by
  fun_induction readText template mark mode text with
  | case5 _ _ rest _ _ _ _ _ _ hmark =>
      -- The dollar sign and the brace after it are taken together.
      cases rest <;> simp_all
  | _ =>
      simp_all [TextRead.cons]

theorem fits_readString
    (mark : Char)
    (text : List Char) :
    (readString mark text).Fits (mark :: text) := by
  have hread := congrArg (mark :: ·) (spelling_append_rest_readText false mark .plain text)
  unfold readString
  dsimp only
  split
  all_goals
    exact Lexeme.fits_of_kind hread (by simp) (by simp)

theorem fits_readTemplate
    (opens : Bool)
    (mark : Char)
    (text : List Char) :
    (readTemplate opens mark text).Fits (mark :: text) := by
  have hread := congrArg (mark :: ·) (spelling_append_rest_readText true '\x60' .plain text)
  unfold readTemplate
  dsimp only
  split
  · exact Lexeme.fits_failed hread
  all_goals
    exact Lexeme.fits_of_kind hread (by simp) (by simp)

theorem from_readPattern
    (inClass escaped : Bool)
    (text : List Char) :
    (readPattern inClass escaped text).From text := by
  unfold Taken.From
  fun_induction readPattern inClass escaped text <;> simp_all [Taken.cons]

theorem fits_readRegularExpression
    (opening text : List Char) :
    (readRegularExpression opening text).Fits (opening ++ text) := by
  have hpattern := from_readPattern false false text
  refine Lexeme.fits_of_kind ?_ (by simp [readRegularExpression]) (by simp [readRegularExpression])
  unfold Taken.From at hpattern
  simp only [readRegularExpression, List.append_assoc, List.takeWhile_append_dropWhile, hpattern]

/-! ## Punctuators -/

theorem toList_append_drop_of_leading?
    {candidates : List String} {mark : String}
    (h : leading? candidates text = some mark) :
    mark.toList ++ text.drop mark.length = text := by
  have hprefix : mark.toList.isPrefixOf text = true := by
    simpa using List.find?_some h
  obtain ⟨rest, rfl⟩ := List.isPrefixOf_iff_prefix.1 hprefix
  rw [← String.length_toList, List.drop_left]

theorem fits_plain_of_leading?
    {candidates : List String} {mark : String}
    (h : leading? candidates text = some mark) :
    (Lexeme.plain .punctuator mark.toList (text.drop mark.length)).Fits text :=
  Lexeme.fits_plain (toList_append_drop_of_leading? h) (by simp)

theorem fits_readPunctuator
    (text : List Char) :
    (readPunctuator text).Fits text := by
  unfold readPunctuator
  split
  · rename_i mark hmark
    split at hmark
    · rename_i hquestion
      obtain rfl := Option.some.inj hmark
      refine Lexeme.fits_plain ?_ (by simp)
      unfold isQuestionPoint at hquestion
      split at hquestion
      · rfl
      · cases hquestion
    · exact fits_plain_of_leading? hmark
  · split
    · exact Lexeme.fits_failed rfl
    · exact Lexeme.fits_plain rfl (by simp)

/-! ## Any token -/

/-- Every lexeme stands at the beginning of the text that was read. -/
theorem fits_readLexeme
    (text : List Char) :
    (readLexeme text).Fits text := by
  unfold readLexeme
  split
  · exact Lexeme.fits_plain rfl (by simp)
  · rename_i c rest
    split
    · rename_i hstart
      exact fits_readWord hstart
    split
    · exact fits_readNumber c rest
    split
    · exact fits_readString c rest
    split
    · exact fits_readTemplate true c rest
    split
    · rename_i hc
      obtain rfl : c = '#' := by simpa using hc
      exact fits_readPrivateName rest
    split
    · rename_i hc
      obtain rfl : c = '.' := by simp at hc; exact hc.1
      exact fits_pointNumber rest
    · exact fits_readPunctuator _

end Fits

end Script
end FeatureProbes
