import FeatureProbes.Proofs.WebIdl.Reading.Pieces

/-!
# How texts of definitions are laid out

A text that is cut into tokens consists of the spellings of these tokens and of the gaps between
them: blanks and comments.  Nothing else is skipped, and every token has the line that it ends on.
A block comment without an end is the one gap that a reader might not expect: it takes the rest of
the text.

What a text says, without the lines, is a matter of its words.  A gap adds nothing to them, and a
word adds itself.
-/

namespace FeatureProbes
namespace WebIdl

/-! ## Layouts -/

/-- A token and the text in front of it. -/
structure Placed where
  before : List Char
  token : Token
  deriving Repr, DecidableEq

namespace Placed

def word (placed : Placed) : Word :=
  placed.token.word

/-- The line on which the token begins. -/
def line (placed : Placed) : Nat :=
  1 + placed.before.count '\n'

end Placed

/-- A part of a text, with what is before it and behind it, consists of tokens and of gaps between
them.  Tokens have the line that they end on. -/
inductive Layout : (before part : List Char) → List Placed → (rest : List Char) → Prop
  | nil
      {before rest : List Char} :
      Layout before [] [] rest
  | gap
      {before gap part rest : List Char} {placed : List Placed}
      (hgap : IsGap gap (part ++ rest))
      (h : Layout (before ++ gap) part placed rest) :
      Layout before (gap ++ part) placed rest
  | token
      {before part rest : List Char} {placed : List Placed} {token : Token}
      (hfits : token.word.Fits (part ++ rest))
      (hline : token.line = 1 + (before ++ token.spelling).count '\n')
      (h : Layout (before ++ token.spelling) part placed rest) :
      Layout before (token.spelling ++ part) (⟨before, token⟩ :: placed) rest

theorem Layout.word
    {before part rest : List Char} {placed : List Placed} {word : Word} {line : Nat}
    (hfits : word.Fits (part ++ rest))
    (hline : line = 1 + (before ++ word.spelling).count '\n')
    (h : Layout (before ++ word.spelling) part placed rest) :
    Layout before (word.spelling ++ part) (⟨before, ⟨word.kind, word.text, line⟩⟩ :: placed)
      rest := by
  have hword : (Token.word ⟨word.kind, word.text, line⟩).Fits (part ++ rest) := hfits
  exact .token hword hline h

/-- A layout stays what it is in front of another text that supports it. -/
theorem Layout.of_supports
    {before part rest other : List Char} {placed : List Placed}
    (h : Layout before part placed rest)
    (hother : Supports rest other) :
    Layout before part placed other := by
  induction h with
  | nil =>
      exact .nil
  | @gap before gap part rest placed hgap h ih =>
      exact .gap ((hother.append part).gap _ hgap) (ih hother)
  | @token before part rest placed token hfits hline h ih =>
      exact .token ((hother.append part).fits _ hfits) hline (ih hother)

/-- Where the tokens of a text begin, within a number of rounds. -/
def placedWithin : Nat → Nat → List Char → List Char → List Placed
  | 0, _, _, _ => []
  | rounds + 1, line, before, text =>
      match scanOne line text with
      | .done => []
      | .trivia line rest =>
          placedWithin rounds line (before ++ text.take (text.length - rest.length)) rest
      | .token token line rest =>
          ⟨before, token⟩ :: placedWithin rounds line (before ++ token.spelling) rest
      | .failed _ _ => []

/-- The tokens that are read from a text, up to its end or to the first fault, with the text in
front of each of them. -/
def placedTokens (text : List Char) : List Placed :=
  placedWithin (text.length + 1) 1 [] text

/-! ## Going over a text -/

section Scan

variable {rounds line : Nat} {before rest : List Char}

/-- A text is gone over piece by piece. -/
@[elab_as_elim]
theorem induction_on_pieces
    {motive : List Char → Prop}
    (done : motive [])
    (gap : ∀ gap rest, IsGap gap rest → motive rest → motive (gap ++ rest))
    (word : ∀ (word : Word) rest, word.Fits rest → motive rest → motive (word.spelling ++ rest))
    (fault : ∀ text fault, (∀ line, ∃ last, scanOne line text = .failed last fault) → motive text)
    (text : List Char) :
    motive text := by
  induction hlength : text.length using Nat.strongRecOn generalizing text with
  | ind length ih =>
      subst hlength
      cases begins text with
      | done =>
          exact done
      | @gap piece rest hgap =>
          have hpiece := List.length_pos_iff.2 hgap.ne_nil
          exact gap piece rest hgap (ih _ (by rw [List.length_append]; omega) rest rfl)
      | @word piece rest hfits =>
          have hpiece := List.length_pos_iff.2 hfits.spelling_ne_nil
          exact word piece rest hfits (ih _ (by rw [List.length_append]; omega) rest rfl)
      | fault f h =>
          exact fault text f h

theorem scanWithin_gap
    {gap : List Char}
    (h : IsGap gap rest)
    (rounds line : Nat) :
    scanWithin (rounds + 1) line (gap ++ rest) =
      scanWithin rounds (line + gap.count '\n') rest := by
  rw [scanWithin, h.scanOne_eq]

theorem scanWithin_word
    {word : Word}
    (h : word.Fits rest)
    (rounds line : Nat) :
    scanWithin (rounds + 1) line (word.spelling ++ rest) =
      (scanWithin rounds (line + word.spelling.count '\n') rest).map fun (found, last) =>
        (⟨word.kind, word.text, line + word.spelling.count '\n'⟩ :: found, last) := by
  rw [scanWithin, h.scanOne_eq]
  dsimp only
  cases scanWithin rounds (line + word.spelling.count '\n') rest <;> rfl

theorem placedWithin_gap
    {gap : List Char}
    (h : IsGap gap rest)
    (rounds line : Nat)
    (before : List Char) :
    placedWithin (rounds + 1) line before (gap ++ rest) =
      placedWithin rounds (line + gap.count '\n') (before ++ gap) rest := by
  rw [placedWithin, h.scanOne_eq]
  simp

theorem placedWithin_word
    {word : Word}
    (h : word.Fits rest)
    (rounds line : Nat)
    (before : List Char) :
    placedWithin (rounds + 1) line before (word.spelling ++ rest) =
      ⟨before, ⟨word.kind, word.text, line + word.spelling.count '\n'⟩⟩ ::
        placedWithin rounds (line + word.spelling.count '\n') (before ++ word.spelling) rest := by
  rw [placedWithin, h.scanOne_eq]
  rfl

/-- The lines are counted from the start of the text. -/
theorem line_append
    (hline : line = 1 + before.count '\n')
    (piece : List Char) :
    line + piece.count '\n' = 1 + (before ++ piece).count '\n' := by
  rw [hline, List.count_append, Nat.add_assoc]

/-- A text that is cut into tokens is laid out as these tokens, to its end. -/
theorem layout_of_scanWithin
    {text : List Char} {found : List Token} {last : Nat}
    (hrounds : text.length < rounds)
    (hline : line = 1 + before.count '\n')
    (h : scanWithin rounds line text = .ok (found, last)) :
    Layout before text (placedWithin rounds line before text) [] ∧
      (placedWithin rounds line before text).map Placed.token = found ∧
      last = 1 + (before ++ text).count '\n' := by
  induction text using induction_on_pieces generalizing rounds line before found with
  | done =>
      cases rounds with
      | zero =>
          cases hrounds
      | succ rounds =>
          cases h
          exact ⟨.nil, rfl, by rw [List.append_nil, hline]⟩
  | gap gap rest hgap ih =>
      rw [List.length_append] at hrounds
      have hpiece := List.length_pos_iff.2 hgap.ne_nil
      obtain ⟨rounds, rfl⟩ : ∃ more, rounds = more + 1 := ⟨rounds - 1, by omega⟩
      rw [scanWithin_gap hgap] at h
      rw [placedWithin_gap hgap]
      obtain ⟨hlayout, hfound, hlast⟩ := ih (by omega) (line_append hline gap) h
      refine ⟨.gap (by rwa [List.append_nil]) hlayout, hfound, ?_⟩
      rw [hlast, List.append_assoc]
  | word word rest hfits ih =>
      rw [List.length_append] at hrounds
      have hpiece := List.length_pos_iff.2 hfits.spelling_ne_nil
      obtain ⟨rounds, rfl⟩ : ∃ more, rounds = more + 1 := ⟨rounds - 1, by omega⟩
      rw [scanWithin_word hfits] at h
      rw [placedWithin_word hfits]
      cases hrest : scanWithin rounds (line + word.spelling.count '\n') rest with
      | error stop =>
          rw [hrest] at h
          cases h
      | ok others =>
          rw [hrest] at h
          cases h
          have hnext := line_append hline word.spelling
          obtain ⟨hlayout, hfound, hlast⟩ := ih (by omega) hnext hrest
          refine ⟨.word (by rwa [List.append_nil]) hnext hlayout, ?_, ?_⟩
          · rw [List.map_cons, hfound]
          · rw [hlast, List.append_assoc]
  | fault text fault hfault =>
      obtain ⟨rounds, rfl⟩ : ∃ more, rounds = more + 1 := ⟨rounds - 1, by omega⟩
      obtain ⟨stop, hstop⟩ := hfault line
      rw [scanWithin, hstop] at h
      cases h

/-- Every token that is read stands behind tokens and gaps, and fits there. -/
theorem exists_layout_of_placedWithin
    {text : List Char} {placed : Placed}
    (hline : line = 1 + before.count '\n')
    (h : placed ∈ placedWithin rounds line before text) :
    ∃ front others behind, placed.before = before ++ front ∧
      text = front ++ (placed.token.spelling ++ behind) ∧
      Layout before front others (placed.token.spelling ++ behind) ∧
      placed.word.Fits behind := by
  induction text using induction_on_pieces generalizing rounds line before with
  | done =>
      cases rounds <;> cases h
  | gap gap rest hgap ih =>
      cases rounds with
      | zero =>
          cases h
      | succ rounds =>
          rw [placedWithin_gap hgap] at h
          obtain ⟨front, others, behind, hbefore, rfl, hlayout, hfits⟩ :=
            ih (line_append hline gap) h
          exact ⟨gap ++ front, others, behind, by rw [hbefore, List.append_assoc],
            by rw [List.append_assoc], .gap hgap hlayout, hfits⟩
  | word word rest hword ih =>
      cases rounds with
      | zero =>
          cases h
      | succ rounds =>
          have hnext := line_append hline word.spelling
          rw [placedWithin_word hword] at h
          rcases List.mem_cons.1 h with rfl | h
          · exact ⟨[], [], rest, by rw [List.append_nil], rfl, .nil, hword⟩
          · obtain ⟨front, others, behind, hbefore, rfl, hlayout, hfits⟩ := ih hnext h
            exact ⟨word.spelling ++ front, _, behind, by rw [hbefore, List.append_assoc],
              by rw [List.append_assoc], .word hword hnext hlayout, hfits⟩
  | fault text fault hfault =>
      cases rounds with
      | zero =>
          cases h
      | succ rounds =>
          obtain ⟨stop, hstop⟩ := hfault line
          rw [placedWithin, hstop] at h
          cases h

end Scan

theorem exists_layout_of_placedTokens
    {text : List Char} {placed : Placed}
    (h : placed ∈ placedTokens text) :
    ∃ others behind, text = placed.before ++ (placed.token.spelling ++ behind) ∧
      Layout [] placed.before others (placed.token.spelling ++ behind) ∧
      placed.word.Fits behind := by
  have hline : 1 = 1 + ([] : List Char).count '\n' := rfl
  obtain ⟨front, others, behind, hbefore, htext, hlayout, hfits⟩ :=
    exists_layout_of_placedWithin hline h
  rw [List.nil_append] at hbefore
  subst hbefore
  exact ⟨others, behind, htext, hlayout, hfits⟩

/-- A text that is cut into tokens consists of the spellings of these tokens and of gaps: no other
text is skipped.  Every token has the line that it ends on. -/
theorem layout_of_tokens
    {text : List Char} {found : List Token} {last : Nat}
    (h : tokens text = .ok (found, last)) :
    Layout [] text (placedTokens text) [] ∧
      (placedTokens text).map Placed.token = found ∧ last = 1 + text.count '\n' :=
  layout_of_scanWithin (Nat.lt_succ_self _) rfl h

/-- A block comment that is not closed is a gap, too: the text behind its opening marks is lost. -/
theorem tokens_unclosedComment
    {body : List Char}
    (hbody : IsCommentBody body) :
    tokens ('/' :: '*' :: body) = .ok ([], 1 + body.count '\n') := by
  have hgap := scanWithin_gap (.unclosed hbody) (body.length + 2) 1
  rw [List.append_nil] at hgap
  rw [tokens, List.length_cons, List.length_cons, hgap]
  simp [scanWithin, scanOne]

/-! ## What a text says -/

/-- What a scan says, without its lines. -/
def withoutLines :
    Except (Nat × LexicalFault) (List Token × Nat) → Except LexicalFault (List Word)
  | .ok (found, _) => .ok (found.map Token.word)
  | .error (_, fault) => .error fault

theorem withoutLines_map_cons
    (token : Token)
    (scan : Except (Nat × LexicalFault) (List Token × Nat)) :
    withoutLines (scan.map fun (found, last) => (token :: found, last)) =
      (withoutLines scan).map (token.word :: ·) := by
  cases scan <;> rfl

/-- The words of a text, or the fault for which it cannot be cut into words. -/
def wordsOf (text : List Char) : Except LexicalFault (List Word) :=
  withoutLines (tokens text)

theorem exists_tokens_of_wordsOf
    {text : List Char} {words : List Word}
    (h : wordsOf text = .ok words) :
    ∃ found last, tokens text = .ok (found, last) ∧ words = found.map Token.word := by
  rw [wordsOf] at h
  cases htokens : tokens text with
  | error stop =>
      rw [htokens] at h
      cases h
  | ok scanned =>
      obtain ⟨found, last⟩ := scanned
      rw [htokens] at h
      cases h
      exact ⟨found, last, rfl, rfl⟩

theorem exists_fault_of_wordsOf
    {text : List Char} {fault : LexicalFault}
    (h : wordsOf text = .error fault) :
    ∃ line, tokens text = .error (line, fault) := by
  rw [wordsOf] at h
  cases htokens : tokens text with
  | error stop =>
      obtain ⟨line, found⟩ := stop
      rw [htokens] at h
      cases h
      exact ⟨line, rfl⟩
  | ok scanned =>
      rw [htokens] at h
      cases h

/-- What a text says does not depend on the line on which it begins, nor on the rounds, if these
are enough. -/
theorem withoutLines_scanWithin
    {rounds line : Nat} {text : List Char}
    (hrounds : text.length < rounds) :
    withoutLines (scanWithin rounds line text) = wordsOf text := by
  suffices hboth : ∀ rounds' line', text.length < rounds' →
      withoutLines (scanWithin rounds line text) = withoutLines (scanWithin rounds' line' text) from
    hboth _ _ (Nat.lt_succ_self _)
  induction text using induction_on_pieces generalizing rounds line with
  | done =>
      intro rounds' line' hrounds'
      cases rounds <;> cases rounds' <;> rfl
  | gap gap rest hgap ih =>
      intro rounds' line' hrounds'
      rw [List.length_append] at hrounds hrounds'
      have hpiece := List.length_pos_iff.2 hgap.ne_nil
      obtain ⟨rounds, rfl⟩ : ∃ more, rounds = more + 1 := ⟨rounds - 1, by omega⟩
      obtain ⟨rounds', rfl⟩ : ∃ more, rounds' = more + 1 := ⟨rounds' - 1, by omega⟩
      rw [scanWithin_gap hgap, scanWithin_gap hgap]
      exact ih (by omega) _ _ (by omega)
  | word word rest hfits ih =>
      intro rounds' line' hrounds'
      rw [List.length_append] at hrounds hrounds'
      have hpiece := List.length_pos_iff.2 hfits.spelling_ne_nil
      obtain ⟨rounds, rfl⟩ : ∃ more, rounds = more + 1 := ⟨rounds - 1, by omega⟩
      obtain ⟨rounds', rfl⟩ : ∃ more, rounds' = more + 1 := ⟨rounds' - 1, by omega⟩
      have hrest : rest.length < rounds ∧ rest.length < rounds' := by omega
      rw [scanWithin_word hfits, scanWithin_word hfits, withoutLines_map_cons,
        withoutLines_map_cons, ih hrest.1 _ _ hrest.2]
      rfl
  | fault text fault hfault =>
      intro rounds' line' hrounds'
      obtain ⟨rounds, rfl⟩ : ∃ more, rounds = more + 1 := ⟨rounds - 1, by omega⟩
      obtain ⟨rounds', rfl⟩ : ∃ more, rounds' = more + 1 := ⟨rounds' - 1, by omega⟩
      obtain ⟨stop, hstop⟩ := hfault line
      obtain ⟨stop', hstop'⟩ := hfault line'
      rw [scanWithin, scanWithin, hstop, hstop']
      rfl

theorem wordsOf_gap
    {gap rest : List Char}
    (h : IsGap gap rest) :
    wordsOf (gap ++ rest) = wordsOf rest := by
  have hpiece := List.length_pos_iff.2 h.ne_nil
  rw [wordsOf, tokens, scanWithin_gap h]
  exact withoutLines_scanWithin (by rw [List.length_append]; omega)

theorem wordsOf_word
    {word : Word} {rest : List Char}
    (h : word.Fits rest) :
    wordsOf (word.spelling ++ rest) = (wordsOf rest).map (word :: ·) := by
  have hpiece := List.length_pos_iff.2 h.spelling_ne_nil
  rw [wordsOf, tokens, scanWithin_word h, withoutLines_map_cons,
    withoutLines_scanWithin (by rw [List.length_append]; omega)]
  rfl

theorem wordsOf_layout
    {before part rest : List Char} {placed : List Placed}
    (h : Layout before part placed rest) :
    wordsOf (part ++ rest) = (wordsOf rest).map (placed.map Placed.word ++ ·) := by
  induction h with
  | @nil before rest =>
      cases hrest : wordsOf rest <;> simp [hrest, Except.map]
  | gap hgap h ih =>
      rw [List.append_assoc, wordsOf_gap hgap, ih]
  | @token before part rest placed token hfits hline h ih =>
      rw [List.append_assoc]
      change wordsOf (token.word.spelling ++ (part ++ rest)) = _
      rw [wordsOf_word hfits, ih]
      cases wordsOf rest <;> rfl

/-- A string that is not closed is a fault, whatever stands before it. -/
theorem tokens_unclosedString
    {before rest : List Char} {placed : List Placed}
    (h : Layout [] before placed ('"' :: rest))
    (hrest : '"' ∉ rest) :
    ∃ line, tokens (before ++ '"' :: rest) = .error (line, .unterminatedString) := by
  have hquote : wordsOf ('"' :: rest) = .error .unterminatedString := by
    rw [wordsOf, tokens, scanWithin, scanOne_quote, scanString_eq_none hrest]
    rfl
  have hwords := wordsOf_layout h
  rw [hquote] at hwords
  exact exists_fault_of_wordsOf hwords

end WebIdl
end FeatureProbes
