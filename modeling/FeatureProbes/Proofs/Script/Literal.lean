import FeatureProbes.Proofs.Script.Throwing
import Mathlib.Logic.Function.Basic

/-!
# Quoted text as a string of a script

A quoted text is one string of a script, from its first character to its last, and the string stands
for the text.  It has no control characters.  So it stays whole wherever it stands: what is behind
it does not change where it ends, and a wrapper lays out only what is around it.
-/

namespace FeatureProbes

namespace Text

/-! ## Characters -/

theorem le_toNat_hexDigit
    {n : Nat}
    (h : n < 16) :
    32 ≤ (hexDigit n).toNat := by
  revert n
  decide

theorem le_toNat_of_mem_escapeChar
    (c : Char) :
    ∀ d ∈ escapeChar c, 32 ≤ d.toNat := by
  unfold escapeChar
  split_ifs with h₁ h₂ h₃ h₄ h₅ h₆ h₇ h₈
  iterate 7
    · simp
  · have hhigh := le_toNat_hexDigit (n := c.toNat / 16) (by omega)
    have hlow := le_toNat_hexDigit (n := c.toNat % 16) (by omega)
    simp [hhigh, hlow]
  · simpa using h₈

/-- Quoted text has no control characters. -/
theorem le_toNat_of_mem_quote
    {text : List Char} {c : Char}
    (h : c ∈ quote text) :
    32 ≤ c.toNat := by
  have hquote : 32 ≤ '"'.toNat := by
    decide
  simp only [quote, List.mem_cons, List.mem_append, List.mem_flatMap, List.not_mem_nil, or_false]
    at h
  rcases h with rfl | ⟨d, -, hd⟩ | rfl
  · exact hquote
  · exact le_toNat_of_mem_escapeChar d c hd
  · exact hquote

/-! ## Lines around a quoted text -/

/-- The lines in front of a text and the beginning of its first line do not depend on the text,
unless it begins with a line feed. -/
theorem exists_lines_append
    (before : List Char) :
    ∃ done opened, ∀ {text line : List Char} {more : List (List Char)}, text.head? ≠ some '\n' →
      lines text = line :: more → lines (before ++ text) = done ++ (opened ++ line) :: more := by
  fun_induction lines before with
  | case1 =>
      exact ⟨[], [], fun _ h => h⟩
  | case2 rest ih =>
      obtain ⟨done, opened, ih⟩ := ih
      refine ⟨[] :: done, opened, fun hhead h => ?_⟩
      rw [List.cons_append, lines, ih hhead h]
      rfl
  | case3 rest ih =>
      obtain ⟨done, opened, ih⟩ := ih
      refine ⟨[] :: done, opened, fun hhead h => ?_⟩
      rw [List.cons_append, List.cons_append, lines, ih hhead h]
      rfl
  | case4 c rest hfeed hreturn ih =>
      obtain ⟨done, opened, ih⟩ := ih
      have hstep : ∀ {text : List Char}, text.head? ≠ some '\n' →
          lines (c :: (rest ++ text)) = consLine c (lines (rest ++ text)) := by
        intro text hhead
        refine lines_cons hfeed fun hc => ?_
        cases rest with
        | nil =>
            exact hhead
        | cons d rest =>
            rintro ⟨⟩
            exact hreturn rest hc rfl
      cases done with
      | nil =>
          refine ⟨[], c :: opened, fun hhead h => ?_⟩
          rw [List.cons_append, hstep hhead, ih hhead h]
          rfl
      | cons first done =>
          refine ⟨(c :: first) :: done, opened, fun hhead h => ?_⟩
          rw [List.cons_append, hstep hhead, ih hhead h]
          rfl

/-- A text behind one that stands on one line and ends in a quote ends this line and goes on with
others. -/
theorem exists_lines_quote
    (after : List Char) :
    ∃ line more, ∀ {front : List Char}, '\n' ∉ front →
      lines (front ++ '"' :: after) = (front ++ '"' :: line) :: more := by
  have hquote : lines ('"' :: after) = consLine '"' (lines after) :=
    lines_cons (by decide) fun hreturn => absurd hreturn (by decide)
  obtain ⟨line, more, hlines⟩ : ∃ line more, lines ('"' :: after) = ('"' :: line) :: more := by
    rw [hquote]
    cases lines after with
    | nil =>
        exact ⟨[], [], rfl⟩
    | cons line more =>
        exact ⟨line, more, rfl⟩
  refine ⟨line, more, fun {front} hfront => ?_⟩
  induction front with
  | nil =>
      exact hlines
  | cons c front ih =>
      rw [List.mem_cons, not_or] at hfront
      have hstep : lines (c :: (front ++ '"' :: after)) =
          consLine c (lines (front ++ '"' :: after)) := by
        refine lines_cons (Ne.symm hfront.1) fun _ => ?_
        cases front with
        | nil =>
            simp
        | cons d front =>
            rintro ⟨⟩
            exact hfront.2 List.mem_cons_self
      rw [List.cons_append, hstep, ih hfront.2]
      rfl

theorem exists_intercalate
    (separator : List Char)
    (front back : List (List Char)) :
    ∃ left right, ∀ piece : List Char,
      separator.intercalate (front ++ piece :: back) = left ++ (piece ++ right) := by
  induction front with
  | nil =>
      cases back with
      | nil =>
          exact ⟨[], [], fun piece => by simp⟩
      | cons next back =>
          exact ⟨[], separator ++ separator.intercalate (next :: back), fun piece => by
            simp [List.intercalate_cons_cons]⟩
  | cons first front ih =>
      obtain ⟨left, right, ih⟩ := ih
      refine ⟨first ++ (separator ++ left), right, fun piece => ?_⟩
      have hne : front ++ piece :: back ≠ [] := by
        simp
      obtain ⟨next, more, hmore⟩ := List.exists_cons_of_ne_nil hne
      rw [List.cons_append, hmore, List.intercalate_cons_cons, ← hmore, ih]
      simp

/-- Indentation keeps a quoted text.  What it makes of the text before and behind does not depend on
what is quoted. -/
theorem exists_indent_quote
    (before after : List Char) :
    ∃ left right, ∀ text,
      indent (before ++ (quote text ++ after)) = left ++ (quote text ++ right) := by
  obtain ⟨done, opened, hbefore⟩ := exists_lines_append before
  obtain ⟨line, more, hafter⟩ := exists_lines_quote after
  obtain ⟨left, right, hpieces⟩ :=
    exists_intercalate ['\n'] (done.map indentLine) (more.map indentLine)
  refine ⟨left ++ ' ' :: ' ' :: opened, line ++ right, fun text => ?_⟩
  have hfront : '\n' ∉ '"' :: text.flatMap escapeChar := fun hmem =>
    newline_not_mem_quote text (List.mem_append_left ['"'] hmem)
  have hlines : lines (quote text ++ after) = (quote text ++ line) :: more := by
    have h := hafter hfront
    simpa [quote] using h
  have hvisible : (opened ++ (quote text ++ line)).all isBlank = false := by
    rw [List.all_eq_false]
    exact ⟨'"', by simp [quote], by decide⟩
  rw [indent, hbefore (by simp [quote]) hlines, List.map_append, List.map_cons, indentLine,
    hvisible, if_neg (by decide), hpieces]
  simp

end Text

namespace Script

/-- A wrapper keeps a quoted text in a body.  What it makes of the rest of the body does not depend
on what is quoted. -/
theorem exists_wrap_quoted
    (before after : String) :
    ∃ front back, ∀ s,
      (wrap (before ++ Text.quoted s ++ after)).toList =
        front ++ ((Text.quoted s).toList ++ back) := by
  obtain ⟨left, right, hindent⟩ :=
    Text.exists_indent_quote before.toList (Text.trimEnd after.toList)
  refine ⟨"(function () \x7b\n".toList ++ left, right ++ "\n\x7d)()".toList, fun s => ?_⟩
  have htrim : Text.trimEnd (before ++ Text.quoted s ++ after).toList =
      before.toList ++ (Text.quote s.toList ++ Text.trimEnd after.toList) := by
    have h := Text.trimEnd_append_cons (c := '"') (by decide)
      (before.toList ++ '"' :: s.toList.flatMap Text.escapeChar) after.toList
    simpa [Text.quoted, Text.quote] using h
  rw [wrap, htrim, hindent]
  simp [Text.quoted]

/-- Where reading stands before a quoted text, the next token is a string that stands for the text
and has all of its characters. -/
theorem scanToken_quoted
    (offset : Nat)
    (atLineStart : Bool)
    (s : String)
    (rest : List Char) :
    scanToken offset atLineStart ((Text.quoted s).toList ++ rest) =
      (⟨.string, s, offset, offset + (Text.quoted s).toList.length, atLineStart, false, false⟩,
        rest, []) := by
  have hskip : skipTrivia .between 0 atLineStart (Text.quote s.toList ++ rest) =
      ⟨0, atLineStart, Text.quote s.toList ++ rest, false⟩ := by
    cases atLineStart <;> rfl
  rw [Text.quoted, String.toList_ofList, scanToken, hskip]
  simp [readLexeme_quote]

theorem initial_quoted
    (s : String) :
    State.initial (Text.quoted s).toList =
      ⟨⟨.string, s, 0, (Text.quoted s).toList.length, true, false, false⟩, [], [], [], [],
        (Text.quoted s).toList.length + 2⟩ := by
  have hmark : afterHashMark (Text.quoted s).toList = ⟨0, true, (Text.quoted s).toList, false⟩ := by
    rw [Text.quoted, String.toList_ofList]
    rfl
  have hscan := scanToken_quoted 0 true s []
  rw [List.append_nil, Nat.zero_add] at hscan
  rw [State.initial, hmark]
  simp [hscan]

theorem quoted_injective :
    Function.Injective Text.quoted := by
  intro s t h
  have hs := scanToken_quoted 0 true s []
  rw [h, scanToken_quoted] at hs
  exact (congrArg (fun scanned => scanned.1.text) hs).symm

/-- Quoted text is faithful.  It has no control characters; read by itself it is one string, and
wherever reading comes to it it is this string, which stands for the text that is quoted; different
texts are quoted differently, and a wrapper keeps it whole, whatever stands around it. -/
theorem quoted_faithful :
    (∀ s,
      (∀ c ∈ (Text.quoted s).toList, 32 ≤ c.toNat) ∧
      (Text.quoted s).toList.head? = some '"' ∧
      (State.initial (Text.quoted s).toList).token =
        ⟨.string, s, 0, (Text.quoted s).toList.length, true, false, false⟩ ∧
      (State.initial (Text.quoted s).toList).next.token.kind = .endOfText ∧
      (State.initial (Text.quoted s).toList).next.lexical = [] ∧
      (∀ offset atLineStart rest,
        scanToken offset atLineStart ((Text.quoted s).toList ++ rest) =
          (⟨.string, s, offset, offset + (Text.quoted s).toList.length, atLineStart, false, false⟩,
            rest, [])) ∧
      parse (wrap (throwing s)).toList = .ok (callTree (functionTree (throwTree s)))) ∧
    Function.Injective Text.quoted ∧
    ∀ before after, ∃ front back, ∀ s,
      (wrap (before ++ Text.quoted s ++ after)).toList =
        front ++ ((Text.quoted s).toList ++ back) := by
  refine ⟨fun s => ⟨fun c hc => ?_, ?_, ?_, ?_, ?_, ?_, parse_wrap_throwing s⟩, quoted_injective,
    exists_wrap_quoted⟩
  · rw [Text.quoted, String.toList_ofList] at hc
    exact Text.le_toNat_of_mem_quote hc
  · rw [Text.quoted, String.toList_ofList]
    rfl
  · rw [initial_quoted]
  · rw [initial_quoted]
    rfl
  · rw [initial_quoted]
    rfl
  · exact fun offset atLineStart rest => scanToken_quoted offset atLineStart s rest

/-- A quote, a backslash, line ends, a control character and a line separator, quoted as the name of
a property that is asked for. -/
theorem quoted_faithful_marks :
    let s := "\"\\\n\r\x01\u2028"
    Text.quoted s = "\"\\\"\\\\\\n\\r\\u0001\u2028\"" ∧
      (State.initial (Text.quoted s).toList).token.text = s ∧
      (∀ c ∈ (Text.quoted s).toList, 32 ≤ c.toNat) ∧
      ∃ front back, (wrap ("bcd.testCSSProperty(" ++ Text.quoted s ++ ")\n")).toList =
        front ++ ((Text.quoted s).toList ++ back) := by
  intro s
  obtain ⟨hquoted, -, hwrap⟩ := quoted_faithful
  obtain ⟨hvisible, -, htoken, -⟩ := hquoted s
  obtain ⟨front, back, hwhole⟩ := hwrap "bcd.testCSSProperty(" ")\n"
  exact ⟨by decide +kernel, congrArg Token.text htoken, hvisible, front, back, hwhole s⟩

end Script
end FeatureProbes
