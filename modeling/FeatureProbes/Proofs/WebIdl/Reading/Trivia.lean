import FeatureProbes.Build.Document
import FeatureProbes.Proofs.WebIdl.Reading.Renamed

/-!
# Blanks and comments do not matter

More blanks and comments may stand in front of a token and behind it.  In front of them the same
words are read as in front of the token, because neither a blank nor a slash goes on with a name or
a number; they themselves are gaps; and what follows them is read as before.  So the text says the
same words, and a fragment is loaded or refused as before, up to lines.
-/

namespace FeatureProbes
namespace WebIdl

/-- Blanks, block comments that are closed and comments that end with their line. -/
inductive IsTrivia : List Char → Prop
  | nil :
      IsTrivia []
  | blank
      {c : Char} {more : List Char}
      (hc : Text.isBlank c = true)
      (h : IsTrivia more) :
      IsTrivia (c :: more)
  | line
      {body more : List Char}
      (hbody : '\n' ∉ body)
      (h : IsTrivia more) :
      IsTrivia ('/' :: '/' :: (body ++ '\n' :: more))
  | block
      {body more : List Char}
      (hbody : IsCommentBody body)
      (h : IsTrivia more) :
      IsTrivia ('/' :: '*' :: (body ++ '*' :: '/' :: more))

/-- A text that goes on with no name and no number. -/
def Separates (text : List Char) : Prop :=
  ∀ c ∈ text.head?, isNamePart c = false ∧ isNumberPart c = false

theorem Word.Fits.of_separates
    {word : Word} {rest other : List Char}
    (h : word.Fits rest)
    (hother : Separates other) :
    word.Fits other :=
  h.of_head (fun _ c hc => (hother c hc).1) (Or.inr fun c hc => (hother c hc).2)

/-- What may stand in a name or a number is visible. -/
theorem isVisible_of_part
    {c : Char}
    (h : isNamePart c = true ∨ isNumberPart c = true) :
    IsVisible c := by
  simp only [isNamePart, isNumberPart, Char.isAlphanum, Bool.or_eq_true, beq_iff_eq] at h
  have hcases : c.isAlpha = true ∨ c.isDigit = true ∨ c ∈ ['_', '-', '.', '+'] := by
    simp only [List.mem_cons, List.not_mem_nil, or_false]
    grind
  rcases hcases with halpha | hdigit | hmark
  · exact isVisible_of_isAlpha halpha
  · exact (isVisible_of_isDigit hdigit).1
  · simp only [List.mem_cons, List.not_mem_nil, or_false] at hmark
    rcases hmark with rfl | rfl | rfl | rfl <;> exact ⟨by decide, by decide⟩

theorem separates_of_isBlank
    {c : Char}
    (h : Text.isBlank c = true)
    (rest : List Char) :
    Separates (c :: rest) := by
  have hpart : ¬(isNamePart c = true ∨ isNumberPart c = true) := by
    intro hpart
    rw [(isVisible_of_part hpart).isBlank_eq] at h
    cases h
  rw [not_or, Bool.not_eq_true, Bool.not_eq_true] at hpart
  rintro d ⟨⟩
  exact hpart

theorem IsTrivia.separates
    {trivia rest : List Char}
    (h : IsTrivia trivia)
    (hne : trivia ≠ []) :
    Separates (trivia ++ rest) := by
  cases h with
  | nil =>
      exact absurd rfl hne
  | blank hc h =>
      exact separates_of_isBlank hc _
  | line hbody h =>
      rintro d ⟨⟩
      decide
  | block hbody h =>
      rintro d ⟨⟩
      decide

theorem IsTrivia.wordsOf_append
    {trivia : List Char}
    (h : IsTrivia trivia)
    (rest : List Char) :
    wordsOf (trivia ++ rest) = wordsOf rest := by
  induction h with
  | nil =>
      rfl
  | @blank c more hc h ih =>
      have hgap : IsGap [c] (more ++ rest) := .blank hc
      exact (wordsOf_gap hgap).trans ih
  | @line body more hbody h ih =>
      have hcomment : IsGap ('/' :: '/' :: body) (['\n'] ++ (more ++ rest)) :=
        .line hbody fun c hc => (Option.some.inj hc).symm
      have hend : IsGap ['\n'] (more ++ rest) := .blank (by decide)
      have htext : '/' :: '/' :: (body ++ '\n' :: more) ++ rest =
          '/' :: '/' :: body ++ (['\n'] ++ (more ++ rest)) := by
        simp
      rw [htext, wordsOf_gap hcomment, wordsOf_gap hend, ih]
  | @block body more hbody h ih =>
      have hgap : IsGap ('/' :: '*' :: (body ++ ['*', '/'])) (more ++ rest) := .block hbody
      have htext : '/' :: '*' :: (body ++ '*' :: '/' :: more) ++ rest =
          '/' :: '*' :: (body ++ ['*', '/']) ++ (more ++ rest) := by
        simp
      rw [htext, wordsOf_gap hgap, ih]

theorem Word.Fits.spelling_eq_cons
    {word : Word} {rest : List Char}
    (h : word.Fits rest) :
    ∃ c more, word.spelling = c :: more ∧ c ≠ '\n' := by
  by_cases hkind : word.kind = .string
  · obtain ⟨kind, text⟩ := word
    subst hkind
    exact ⟨'"', _, rfl, by decide⟩
  · obtain ⟨c, more, hspelling⟩ := List.exists_cons_of_ne_nil h.spelling_ne_nil
    refine ⟨c, more, hspelling, ?_⟩
    rintro rfl
    refine List.count_eq_zero.1 (h.count_eq_zero hkind) ?_
    rw [hspelling]
    exact List.mem_cons_self

/-- A place in front of a token of a text or behind one.  The end of a text is no token: a comment
that is open there takes what is written behind it. -/
def IsTokenEdge (before after : List Char) : Prop :=
  ∃ placed ∈ placedTokens (before ++ after),
    before = placed.before ∨ before = placed.before ++ placed.token.spelling

/-- Blanks and comments beside a token leave the words of a text as they are. -/
theorem wordsOf_insert
    {before trivia after : List Char}
    (htrivia : IsTrivia trivia)
    (hedge : IsTokenEdge before after) :
    wordsOf (before ++ (trivia ++ after)) = wordsOf (before ++ after) := by
  by_cases hnil : trivia = []
  · rw [hnil, List.nil_append]
  have hseparates : ∀ rest, Separates (trivia ++ rest) := fun _ => htrivia.separates hnil
  obtain ⟨placed, hplaced, hbefore⟩ := hedge
  obtain ⟨others, behind, htext, hlayout, hfits⟩ := exists_layout_of_placedTokens hplaced
  change Layout [] placed.before others (placed.word.spelling ++ behind) at hlayout
  obtain ⟨c, more, hspelling, hline⟩ := hfits.spelling_eq_cons
  rcases hbefore with rfl | rfl
  · -- In front of the token.
    have hsupports : Supports (placed.word.spelling ++ behind)
        (trivia ++ (placed.word.spelling ++ behind)) := by
      rw [hspelling]
      exact supports_of_fits hline fun word hword => hword.of_separates (hseparates _)
    have hafter : after = placed.word.spelling ++ behind := List.append_cancel_left htext
    rw [hafter, wordsOf_layout hlayout, wordsOf_layout (hlayout.of_supports hsupports),
      htrivia.wordsOf_append]
  · -- Behind it.
    have hsupports : Supports (placed.word.spelling ++ behind)
        (placed.word.spelling ++ (trivia ++ behind)) :=
      supports_of_head?_eq (by rw [hspelling]; rfl)
    have hword : placed.word.Fits (trivia ++ behind) := hfits.of_separates (hseparates behind)
    rw [List.append_assoc] at htext
    have hafter : after = behind := List.append_cancel_left (List.append_cancel_left htext)
    change wordsOf ((placed.before ++ placed.word.spelling) ++ _) =
      wordsOf ((placed.before ++ placed.word.spelling) ++ _)
    rw [hafter, List.append_assoc, List.append_assoc, wordsOf_layout hlayout,
      wordsOf_layout (hlayout.of_supports hsupports), wordsOf_word hword, wordsOf_word hfits,
      htrivia.wordsOf_append]

/-- The same definitions up to lines, or the same fragment with the same fault up to its line. -/
inductive SameUpToLines :
    Except BuildError (List Definition) → Except BuildError (List Definition) → Prop
  | definitions
      {found found' : List Definition}
      (h : found'.map Definition.unlined = found.map Definition.unlined) :
      SameUpToLines (.ok found) (.ok found')
  | fault
      {name : String} {line line' : Nat} {problem : SyntaxProblem} :
      SameUpToLines (.error (.idlSyntax name line problem)) (.error (.idlSyntax name line' problem))

/-- Blanks and comments beside a token change nothing but lines. -/
theorem load_insert
    {before trivia after : List Char}
    (htrivia : IsTrivia trivia)
    (hedge : IsTokenEdge before after)
    (name : String) :
    SameUpToLines ((Build.Source.text (String.ofList (before ++ after))).load name)
      ((Build.Source.text (String.ofList (before ++ (trivia ++ after)))).load name) := by
  have hsame := gives_of_wordsOf_eq (wordsOf_insert htrivia hedge)
  rw [Build.Source.load, Build.Source.load, String.toList_ofList, String.toList_ofList]
  generalize parse (before ++ after) = one at hsame ⊢
  generalize parse (before ++ (trivia ++ after)) = two at hsame ⊢
  cases hsame with
  | definitions h =>
      rw [Renaming.none_definition_eq] at h
      exact .definitions h
  | stop h =>
      cases Renaming.eq_of_none_turns h
      exact .fault

/-- A comment to the end of a line behind a keyword, and a block comment behind that. -/
theorem load_insert_keyword :
    IsTrivia " // -\n/* * */".toList ∧ IsTokenEdge "interface".toList " A \x7b \x7d;".toList ∧
      SameUpToLines
        ((Build.Source.text (String.ofList
          ("interface".toList ++ " A \x7b \x7d;".toList))).load "a")
        ((Build.Source.text (String.ofList
          ("interface".toList ++ (" // -\n/* * */".toList ++ " A \x7b \x7d;".toList)))).load
            "a") := by
  have hblock : IsTrivia "/* * */".toList := @IsTrivia.block " * ".toList [] (by decide) .nil
  have hline : IsTrivia "// -\n/* * */".toList :=
    @IsTrivia.line " -".toList _ (by decide) hblock
  have htrivia : IsTrivia " // -\n/* * */".toList := .blank (by decide) hline
  have hedge : IsTokenEdge "interface".toList " A \x7b \x7d;".toList :=
    ⟨⟨[], ⟨.name false, "interface", 1⟩⟩, by decide, Or.inr rfl⟩
  exact ⟨htrivia, hedge, load_insert htrivia hedge "a"⟩

end WebIdl
end FeatureProbes
