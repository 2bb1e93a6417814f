import FeatureProbes.Proofs.WebIdl.Reading.Tokens
import FeatureProbes.Proofs.WebIdl.Reading.Written

/-!
# What stands at one place of a text

A text of definitions begins with a blank, with a comment, with a word or with a fault.  Blanks and
comments are gaps: they may stand between two words, and nothing is read from them.  A word fits in
front of some texts and not of others, because names and numbers are read as far as they go.

One step of the scanner takes the gap or the word at hand.  What may stand in front of a text
depends on the first character of that text alone.
-/

namespace FeatureProbes
namespace WebIdl

/-! ## Gaps -/

/-- What may stand in a block comment. -/
def IsCommentBody (body : List Char) : Prop :=
  ¬['*', '/'] <:+: body

instance (body : List Char) : Decidable (IsCommentBody body) :=
  inferInstanceAs (Decidable (¬['*', '/'] <:+: body))

/-- What may stand between tokens, in front of the text after it. -/
inductive IsGap : (gap rest : List Char) → Prop
  | blank
      {c : Char} {rest : List Char}
      (hc : Text.isBlank c = true) :
      IsGap [c] rest
  /-- A comment to the end of the line. -/
  | line
      {body rest : List Char}
      (hbody : '\n' ∉ body)
      (hrest : ∀ c ∈ rest.head?, c = '\n') :
      IsGap ('/' :: '/' :: body) rest
  | block
      {body rest : List Char}
      (hbody : IsCommentBody body) :
      IsGap ('/' :: '*' :: (body ++ ['*', '/'])) rest
  /-- A block comment that is not closed goes to the end of the text. -/
  | unclosed
      {body : List Char}
      (hbody : IsCommentBody body) :
      IsGap ('/' :: '*' :: body) []

theorem isCommentBody_cons_iff
    {c : Char} {body : List Char} :
    IsCommentBody (c :: body) ↔ (c = '*' → body.head? ≠ some '/') ∧ IsCommentBody body := by
  have hhead : ['*', '/'] <+: c :: body ↔ c = '*' ∧ body.head? = some '/' := by
    cases body with
    | nil =>
        simp
    | cons d body =>
        simp [eq_comm]
  rw [IsCommentBody, List.infix_cons_iff, hhead, not_or, not_and]
  rfl

theorem skipLine_append
    {body rest : List Char}
    (hbody : '\n' ∉ body)
    (hrest : ∀ c ∈ rest.head?, c = '\n') :
    skipLine (body ++ rest) = rest := by
  induction body with
  | nil =>
      cases rest with
      | nil =>
          rfl
      | cons c rest =>
          exact if_pos (hrest c rfl)
  | cons c body ih =>
      rw [List.mem_cons, not_or] at hbody
      rw [List.cons_append, skipLine, if_neg (Ne.symm hbody.1)]
      exact ih hbody.2

theorem exists_eq_append_skipLine
    (text : List Char) :
    ∃ body, text = body ++ skipLine text ∧ '\n' ∉ body ∧
      ∀ c ∈ (skipLine text).head?, c = '\n' := by
  induction text with
  | nil =>
      exact ⟨[], rfl, List.not_mem_nil, nofun⟩
  | cons c text ih =>
      obtain ⟨body, htext, hbody, hrest⟩ := ih
      by_cases hc : c = '\n'
      · refine ⟨[], ?_, List.not_mem_nil, ?_⟩
        · rw [skipLine, if_pos hc, List.nil_append]
        · rw [skipLine, if_pos hc]
          rintro d ⟨⟩
          exact hc
      · rw [skipLine, if_neg hc]
        refine ⟨c :: body, ?_, by simp [Ne.symm hc, hbody], hrest⟩
        rw [List.cons_append, ← htext]

/-- Inside a comment the first character does not begin its end. -/
theorem skipBlock_cons
    {c : Char} {rest : List Char}
    (h : c = '*' → rest.head? ≠ some '/')
    (line : Nat) :
    skipBlock line (c :: rest) = skipBlock (line + [c].count '\n') rest := by
  have hline : (if c = '\n' then line + 1 else line) = line + [c].count '\n' := by
    by_cases hc : c = '\n' <;> simp [hc]
  rw [skipBlock.eq_def]
  split
  · rename_i heq
    cases heq
  · rename_i heq
    cases heq
    exact absurd rfl (h rfl)
  · rename_i heq
    cases heq
    rw [hline]

theorem skipBlock_append
    {body : List Char}
    (hbody : IsCommentBody body)
    (line : Nat)
    (rest : List Char) :
    skipBlock line (body ++ '*' :: '/' :: rest) = (line + body.count '\n', rest) := by
  induction body generalizing line with
  | nil =>
      rfl
  | cons c body ih =>
      obtain ⟨hc, hbody⟩ := isCommentBody_cons_iff.1 hbody
      have hnext : c = '*' → (body ++ '*' :: '/' :: rest).head? ≠ some '/' := by
        intro hstar
        cases body with
        | nil =>
            simp
        | cons d body =>
            exact hc hstar
      rw [List.cons_append, skipBlock_cons hnext, ih hbody, Nat.add_assoc, ← List.count_append,
        List.singleton_append]

theorem skipBlock_unclosed
    {body : List Char}
    (hbody : IsCommentBody body)
    (line : Nat) :
    skipBlock line body = (line + body.count '\n', []) := by
  induction body generalizing line with
  | nil =>
      rfl
  | cons c body ih =>
      obtain ⟨hc, hbody⟩ := isCommentBody_cons_iff.1 hbody
      rw [skipBlock_cons hc, ih hbody, Nat.add_assoc, ← List.count_append, List.singleton_append]

/-- A block comment is closed at the first place where it can be, or not at all. -/
theorem exists_commentBody
    (text : List Char) :
    IsCommentBody text ∨ ∃ body rest, IsCommentBody body ∧ text = body ++ '*' :: '/' :: rest := by
  have hnone : IsCommentBody [] := by
    simp [IsCommentBody]
  induction text with
  | nil =>
      exact Or.inl hnone
  | cons c text ih =>
      by_cases hc : c = '*' ∧ text.head? = some '/'
      · obtain ⟨rfl, hslash⟩ := hc
        obtain ⟨rest, rfl⟩ := List.head?_eq_some_iff.1 hslash
        exact Or.inr ⟨[], rest, hnone, rfl⟩
      · rw [not_and] at hc
        rcases ih with hopen | ⟨body, rest, hbody, rfl⟩
        · exact Or.inl (isCommentBody_cons_iff.2 ⟨hc, hopen⟩)
        · refine Or.inr ⟨c :: body, rest, isCommentBody_cons_iff.2 ⟨fun hstar => ?_, hbody⟩, rfl⟩
          cases body with
          | nil =>
              simp
          | cons d body =>
              exact hc hstar

/-- A gap is gone over in one step. -/
theorem IsGap.scanOne_eq
    {gap rest : List Char}
    (h : IsGap gap rest)
    (line : Nat) :
    scanOne line (gap ++ rest) = .trivia (line + gap.count '\n') rest := by
  cases h with
  | @blank c rest hc =>
      have hslash : c ≠ '/' := by
        rintro rfl
        exact absurd hc (by decide)
      have hpoint : c ≠ '.' := by
        rintro rfl
        exact absurd hc (by decide)
      rw [List.singleton_append, scanOne.eq_def]
      split
      · simp_all
      · simp_all
      · simp_all
      · simp_all
      · rename_i heq
        cases heq
        by_cases hline : c = '\n'
        · simp [hline]
        · simp [hline, hc]
  | line hbody hrest =>
      have hcount : List.count '\n' ('/' :: '/' :: _) = 0 :=
        List.count_eq_zero.2 (by simpa using hbody)
      rw [hcount, List.cons_append, List.cons_append, scanOne, skipLine_append hbody hrest]
      rfl
  | @block body rest hbody =>
      have htext : '/' :: '*' :: (body ++ ['*', '/']) ++ rest =
          '/' :: '*' :: (body ++ '*' :: '/' :: rest) := by
        simp
      rw [htext, scanOne, skipBlock_append hbody]
      simp
  | unclosed hbody =>
      rw [List.append_nil, scanOne, skipBlock_unclosed hbody]
      simp

theorem IsGap.ne_nil
    {gap rest : List Char}
    (h : IsGap gap rest) :
    gap ≠ [] := by
  cases h <;> simp

/-! ## Words that fit -/

/-- A word that is read in front of a text. -/
inductive Word.Fits : Word → List Char → Prop
  | name
      {text : String} {rest : List Char}
      (hstarts : startsName text.toList = true)
      (hplain : text.toList.head? ≠ some '_')
      (hparts : ∀ c ∈ text.toList, isNamePart c = true)
      (hrest : ∀ c ∈ rest.head?, isNamePart c = false) :
      Fits ⟨.name false, text⟩ rest
  /-- A name with a low line in front of it. -/
  | markedName
      {text : String} {rest : List Char}
      (hstarts : text.toList.head?.any Char.isAlpha = true)
      (hparts : ∀ c ∈ text.toList, isNamePart c = true)
      (hrest : ∀ c ∈ rest.head?, isNamePart c = false) :
      Fits ⟨.name true, text⟩ rest
  | number
      {isDecimal : Bool} {text : String} {rest : List Char}
      (hstarts : startsNumber text.toList = true)
      (hscan : scanNumber false (text.toList.tail ++ rest) = (text.toList.tail, isDecimal, rest)) :
      Fits ⟨if isDecimal then .decimal else .integer, text⟩ rest
  | string
      {text : String} {rest : List Char}
      (htext : IsQuotable text) :
      Fits ⟨.string, text⟩ rest
  | mark
      {c : Char} {rest : List Char}
      (hc : c ∈ marks) :
      Fits ⟨.mark, c.toString⟩ rest
  | ellipsis
      {rest : List Char} :
      Fits .ellipsis rest

section Fits

variable {word : Word} {rest : List Char}

/-- The lines that end in a word are those of a string. -/
theorem Word.Fits.count_eq_zero
    (h : word.Fits rest)
    (hkind : word.kind ≠ .string) :
    word.spelling.count '\n' = 0 := by
  have hpart : isNamePart '\n' = false := by
    decide
  rw [List.count_eq_zero]
  intro hmem
  cases h with
  | name hstarts hplain hparts hrest =>
      rw [hparts _ hmem] at hpart
      cases hpart
  | markedName hstarts hparts hrest =>
      rcases List.mem_cons.1 hmem with heq | hmem
      · cases heq
      · rw [hparts _ hmem] at hpart
        cases hpart
  | @number isDecimal text rest hstarts hscan =>
      have htext : '\n' ∈ text.toList := by
        cases isDecimal <;> exact hmem
      have htail := (eq_append_of_scanNumber hscan).2
      cases hlist : text.toList with
      | nil =>
          rw [hlist] at htext
          cases htext
      | cons c more =>
          rw [hlist] at hstarts htext htail
          rcases List.mem_cons.1 htext with rfl | hmore
          · exact absurd (isVisible_of_startsNumber hstarts).1.1 (by decide)
          · exact htail hmore
  | string htext =>
      exact hkind rfl
  | @mark c rest hc =>
      have hspelling : Word.spelling ⟨.mark, c.toString⟩ = [c] := by
        simp [Word.spelling, Token.spelling]
      rw [hspelling, List.mem_singleton] at hmem
      rw [← hmem] at hc
      exact absurd hc (by decide)
  | ellipsis =>
      exact absurd hmem (by decide)

/-- A word is read where it fits, and its token has the line that it ends on. -/
theorem Word.Fits.scanOne_eq
    (h : word.Fits rest)
    (line : Nat) :
    scanOne line (word.spelling ++ rest) =
      .token ⟨word.kind, word.text, line + word.spelling.count '\n'⟩
        (line + word.spelling.count '\n') rest := by
  by_cases hkind : word.kind = .string
  · cases h with
    | @string text rest htext =>
        have hspelling : Word.spelling ⟨.string, text⟩ = '"' :: (text.toList ++ ['"']) := rfl
        have hcount : ('"' :: (text.toList ++ ['"'])).count '\n' = text.toList.count '\n' := by
          simp
        rw [hspelling, hcount, List.cons_append, List.append_assoc, List.singleton_append]
        exact scanOne_string htext line
    | @number isDecimal text rest hstarts hscan =>
        cases isDecimal <;> cases hkind
    | _ =>
        cases hkind
  · rw [h.count_eq_zero hkind, Nat.add_zero]
    cases h with
    | name hstarts hplain hparts hrest =>
        exact scanOne_name hstarts hplain hparts hrest line
    | markedName hstarts hparts hrest =>
        exact scanOne_markedName hstarts hparts hrest line
    | @number isDecimal text rest hstarts hscan =>
        have hspelling : Word.spelling ⟨if isDecimal then .decimal else .integer, text⟩ =
            text.toList := by
          cases isDecimal <;> rfl
        rw [hspelling]
        exact scanOne_number hstarts hscan line
    | string htext =>
        exact absurd rfl hkind
    | @mark c rest hc =>
        have hspelling : Word.spelling ⟨.mark, c.toString⟩ = [c] := by
          simp [Word.spelling, Token.spelling]
        rw [hspelling, List.singleton_append, scanOne_mark hc]
    | ellipsis =>
        rfl

theorem Word.Fits.spelling_ne_nil
    (h : word.Fits rest) :
    word.spelling ≠ [] := by
  cases h with
  | name hstarts hplain hparts hrest =>
      exact startsName_ne_nil hstarts
  | @number isDecimal text rest hstarts hscan =>
      have htext : text.toList ≠ [] := by
        intro hnil
        rw [hnil] at hstarts
        cases hstarts
      cases isDecimal <;> exact htext
  | mark hc =>
      simp [Word.spelling, Token.spelling]
  | _ =>
      exact List.cons_ne_nil _ _

theorem exists_word_of_startsName
    {text : List Char}
    (h : startsName text = true) :
    ∃ word rest, text = Word.spelling word ++ rest ∧ word.Fits rest := by
  obtain ⟨hparts, hrest⟩ := takeWhile_isNamePart text
  have hfirst := startsName_takeWhile h
  have htext := List.takeWhile_append_dropWhile (p := isNamePart) (l := text)
  generalize text.takeWhile isNamePart = name at hparts hfirst htext
  by_cases hmark : name.head? = some '_'
  · obtain ⟨plain, rfl⟩ := List.head?_eq_some_iff.1 hmark
    refine ⟨⟨.name true, String.ofList plain⟩, _,
      htext.symm.trans (by simp [Word.spelling, Token.spelling]), .markedName ?_ ?_ hrest⟩
    · rw [String.toList_ofList]
      rcases startsName_cons_iff.1 hfirst with halpha | ⟨-, d, others, rfl, hd⟩
      · cases halpha
      · exact hd
    · rw [String.toList_ofList]
      exact fun c hc => hparts c (List.mem_cons_of_mem _ hc)
  · refine ⟨⟨.name false, String.ofList name⟩, _,
      htext.symm.trans (by simp [Word.spelling, Token.spelling]), .name ?_ ?_ ?_ hrest⟩
    all_goals rwa [String.toList_ofList]

theorem exists_word_of_startsNumber
    {c : Char} {more : List Char}
    (h : startsNumber (c :: more) = true) :
    ∃ word rest, c :: more = Word.spelling word ++ rest ∧ word.Fits rest := by
  cases hscan : scanNumber false more with
  | mk taken scanned =>
      obtain ⟨isDecimal, rest⟩ := scanned
      have hstarts := startsNumber_of_scanNumber h hscan
      obtain ⟨hmore, -⟩ := eq_append_of_scanNumber hscan
      refine ⟨⟨if isDecimal then .decimal else .integer, String.ofList (c :: taken)⟩, rest, ?_,
        .number (by rwa [String.toList_ofList]) ?_⟩
      · rw [hmore]
        cases isDecimal <;> simp [Word.spelling, Token.spelling]
      · rw [String.toList_ofList, List.tail_cons, ← hmore, hscan]

end Fits

/-! ## One step -/

/-- What a text begins with. -/
inductive Begins : List Char → Prop
  | done : Begins []
  | gap
      {gap rest : List Char}
      (hgap : IsGap gap rest) :
      Begins (gap ++ rest)
  | word
      {word : Word} {rest : List Char}
      (hfits : word.Fits rest) :
      Begins (word.spelling ++ rest)
  | fault
      {text : List Char}
      (fault : LexicalFault)
      (h : ∀ line, ∃ last, scanOne line text = .failed last fault) :
      Begins text

theorem begins_comment
    {d : Char}
    (hd : d ∈ ['/', '*'])
    (rest : List Char) :
    Begins ('/' :: d :: rest) := by
  simp only [List.mem_cons, List.not_mem_nil, or_false] at hd
  rcases hd with rfl | rfl
  · obtain ⟨body, hrest, hbody, hstop⟩ := exists_eq_append_skipLine rest
    rw [hrest]
    exact Begins.gap (.line hbody hstop)
  · rcases exists_commentBody rest with hbody | ⟨body, behind, hbody, rfl⟩
    · simpa using Begins.gap (.unclosed hbody)
    · have hgap : IsGap ('/' :: '*' :: (body ++ ['*', '/'])) behind := .block hbody
      simpa using Begins.gap hgap

theorem begins_quote
    (rest : List Char) :
    Begins ('"' :: rest) := by
  by_cases hclosed : '"' ∈ rest
  · obtain ⟨value, behind, rfl, hvalue⟩ := List.eq_append_cons_of_mem hclosed
    have hfits : Word.Fits ⟨.string, String.ofList value⟩ behind :=
      .string (by rwa [IsQuotable, String.toList_ofList])
    simpa [Word.spelling, Token.spelling] using Begins.word hfits
  · refine .fault .unterminatedString fun line => ⟨line + rest.count '\n', ?_⟩
    rw [scanOne_quote, scanString_eq_none hclosed]

/-- A text that is not empty begins with a gap, a word or a fault. -/
theorem begins
    (text : List Char) :
    Begins text := by
  have hword : (∃ word rest, text = Word.spelling word ++ rest ∧ word.Fits rest) →
      Begins text := by
    rintro ⟨word, rest, rfl, hfits⟩
    exact .word hfits
  by_cases hcomment : ∃ d ∈ ['/', '*'], ∃ rest, text = '/' :: d :: rest
  · obtain ⟨d, hd, rest, rfl⟩ := hcomment
    exact begins_comment hd rest
  by_cases hdots : ∃ rest, text = '.' :: '.' :: '.' :: rest
  · obtain ⟨rest, rfl⟩ := hdots
    have hfits : Word.ellipsis.Fits rest := .ellipsis
    exact .word hfits
  cases text with
  | nil =>
      exact .done
  | cons c more =>
      by_cases hblank : Text.isBlank c = true
      · have hgap : IsGap [c] more := .blank hblank
        exact .gap hgap
      by_cases hquote : c = '"'
      · rw [hquote]
        exact begins_quote more
      by_cases hname : startsName (c :: more) = true
      · exact hword (exists_word_of_startsName hname)
      by_cases hnumber : startsNumber (c :: more) = true
      · exact hword (exists_word_of_startsNumber hnumber)
      by_cases hmark : c ∈ marks
      · exact hword ⟨⟨.mark, c.toString⟩, more, by simp [Word.spelling, Token.spelling], .mark hmark⟩
      · refine .fault (.unexpectedCharacter c) fun line => ⟨line, ?_⟩
        rw [scanOne_of_plain (by simpa using hblank)
          (fun d hd rest heq => hcomment ⟨d, hd, rest, heq⟩)
          (fun rest heq => hdots ⟨rest, heq⟩), if_neg hquote, if_neg hname, if_neg hnumber,
          if_neg (by simpa using hmark)]

/-! ## Texts behind a gap or a word -/

/-- Whatever stands in front of a text may stand in front of another one. -/
structure Supports (rest other : List Char) : Prop where
  gap : ∀ gap, IsGap gap rest → IsGap gap other
  fits : ∀ word : Word, word.Fits rest → word.Fits other

/-- Whether a word fits in front of a text depends on how the text begins. -/
theorem Word.Fits.of_head
    {word : Word} {rest other : List Char}
    (h : word.Fits rest)
    (hname : (∀ c ∈ rest.head?, isNamePart c = false) → ∀ c ∈ other.head?, isNamePart c = false)
    (hnumber : other.head? = rest.head? ∨ ∀ c ∈ other.head?, isNumberPart c = false) :
    word.Fits other := by
  cases h with
  | name hstarts hplain hparts hrest =>
      exact .name hstarts hplain hparts (hname hrest)
  | markedName hstarts hparts hrest =>
      exact .markedName hstarts hparts (hname hrest)
  | number hstarts hscan =>
      exact .number hstarts (scanNumber_append_of_stop hscan hnumber)
  | string htext =>
      exact .string htext
  | mark hc =>
      exact .mark hc
  | ellipsis =>
      exact .ellipsis

theorem supports_of_head?_eq
    {rest other : List Char}
    (h : other.head? = rest.head?) :
    Supports rest other := by
  refine ⟨?_, fun word hword => hword.of_head (fun hrest => h ▸ hrest) (Or.inl h)⟩
  intro gap hgap
  cases hgap with
  | blank hc =>
      exact .blank hc
  | line hbody hrest =>
      exact .line hbody (h ▸ hrest)
  | block hbody =>
      exact .block hbody
  | unclosed hbody =>
      rw [List.head?_eq_none_iff.1 h]
      exact .unclosed hbody

/-- Inside a line no comment ends in front of the text. -/
theorem supports_of_fits
    {c : Char} {more other : List Char}
    (hc : c ≠ '\n')
    (hfits : ∀ word : Word, word.Fits (c :: more) → word.Fits other) :
    Supports (c :: more) other := by
  refine ⟨?_, hfits⟩
  intro gap hgap
  cases hgap with
  | blank hblank =>
      exact .blank hblank
  | line hbody hrest =>
      exact absurd (hrest c rfl) hc
  | block hbody =>
      exact .block hbody

/-- What is in front of both texts decides. -/
theorem Supports.append
    {rest other : List Char}
    (h : Supports rest other)
    (front : List Char) :
    Supports (front ++ rest) (front ++ other) := by
  cases front with
  | nil =>
      exact h
  | cons c front =>
      exact supports_of_head?_eq rfl

end WebIdl
end FeatureProbes
