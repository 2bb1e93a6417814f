import FeatureProbes.Proofs.WebIdl.Reading.Renamed

/-!
# Names behind a low line

A low line in front of a name is dropped when the name is cut from the text, so a reader cannot know
of it.  Where a name gives way to another one behind a low line, the definitions have the other name
in its place, as long as neither of the two is a word that readers look for.

A low line does not make a name of a keyword: a keyword behind a low line is read as the keyword.
-/

namespace FeatureProbes
namespace WebIdl

/-! ## Words of a name -/

/-- A text where one of the words between its blanks gives way to another one. -/
def replaceWord (old new text : List Char) : List Char :=
  [' '].intercalate ((text.splitOn ' ').map fun word => if word = old then new else word)

section ReplaceWord

variable {old new text : List Char}

theorem replaceWord_of_not_mem
    (h : ' ' ∉ text) :
    replaceWord old new text = if text = old then new else text := by
  have hsplit : text.splitOn ' ' = [text] := by
    rw [List.splitOn_eq_splitOnP]
    refine List.splitOnP_eq_singleton fun c hc => ?_
    rw [beq_eq_false_iff_ne]
    exact ne_of_mem_of_not_mem hc h
  rw [replaceWord, hsplit]
  simp [List.intercalate]

theorem replaceWord_append
    {front : List Char}
    (h : ' ' ∉ front)
    (rest : List Char) :
    replaceWord old new (front ++ ' ' :: rest) =
      (if front = old then new else front) ++ ' ' :: replaceWord old new rest := by
  have hsplit : (front ++ ' ' :: rest).splitOn ' ' = front :: rest.splitOn ' ' := by
    rw [List.splitOn_eq_splitOnP, List.splitOn_eq_splitOnP]
    refine List.splitOnP_append_cons_of_forall_mem (fun c hc => ?_) _ rfl _
    rw [beq_eq_false_iff_ne]
    exact ne_of_mem_of_not_mem hc h
  rw [replaceWord, replaceWord, hsplit]
  obtain ⟨first, more, hmore⟩ := List.exists_cons_of_ne_nil (List.splitOn_ne_nil ' ' rest)
  rw [hmore, List.map_cons, List.map_cons, List.intercalate_cons_cons, List.append_assoc]
  rfl

theorem mem_replaceWord
    (h : ' ' ∈ text) :
    ' ' ∈ replaceWord old new text := by
  obtain ⟨front, rest, rfl, hfront⟩ := List.eq_append_cons_of_mem h
  rw [replaceWord_append hfront]
  exact List.mem_append_right _ List.mem_cons_self

end ReplaceWord

theorem not_mem_of_mem_soughtWords :
    ∀ word ∈ soughtWords, ' ' ∉ word.toList := by
  decide

section Sought

variable {old new word : String}

theorem ne_of_mem_soughtWords
    (hold : old ∉ soughtWords)
    (hword : word ∈ soughtWords) :
    word.toList ≠ old.toList := by
  rw [Ne, String.toList_inj]
  exact ne_of_mem_of_not_mem hword hold

/-- A word that readers look for stays. -/
theorem replaceWord_sought
    (hold : old ∉ soughtWords)
    (hword : word ∈ soughtWords) :
    replaceWord old.toList new.toList word.toList = word.toList := by
  rw [replaceWord_of_not_mem (not_mem_of_mem_soughtWords word hword),
    if_neg (ne_of_mem_soughtWords hold hword)]

theorem replaceWord_sought_append
    (hold : old ∉ soughtWords)
    (hword : word ∈ soughtWords)
    (rest : List Char) :
    replaceWord old.toList new.toList (word.toList ++ ' ' :: rest) =
      word.toList ++ ' ' :: replaceWord old.toList new.toList rest := by
  rw [replaceWord_append (not_mem_of_mem_soughtWords word hword),
    if_neg (ne_of_mem_soughtWords hold hword)]

/-- No other text becomes a word that readers look for. -/
theorem replaceWord_eq_sought_iff
    (hold : old ∉ soughtWords)
    (hnew : new ∉ soughtWords)
    (hword : word ∈ soughtWords)
    (text : String) :
    replaceWord old.toList new.toList text.toList = word.toList ↔ text = word := by
  constructor
  · intro heq
    have hblank := not_mem_of_mem_soughtWords word hword
    by_cases htext : ' ' ∈ text.toList
    · rw [← heq] at hblank
      exact absurd (mem_replaceWord htext) hblank
    · rw [replaceWord_of_not_mem htext] at heq
      split at heq
      · exact absurd heq.symm (ne_of_mem_soughtWords hnew hword)
      · exact String.toList_inj.1 heq
  · rintro rfl
    exact replaceWord_sought hold hword

end Sought

namespace Renaming

/-- One name gives way to another one; readers look for neither. -/
def replacing (old new : String) (hold : old ∉ soughtWords) (hnew : new ∉ soughtWords) :
    Renaming where
  name text := String.ofList (replaceWord old.toList new.toList text.toList)
  name_eq_iff := by
    intro word hword text
    rw [← String.toList_inj, String.toList_ofList]
    exact replaceWord_eq_sought_iff hold hnew hword text
  name_unsigned := by
    intro rest
    have happend : ("unsigned " ++ rest).toList = "unsigned".toList ++ ' ' :: rest.toList := by
      simp
    rw [happend, replaceWord_sought_append hold (by decide)]
    simp [String.ext_iff]
  name_unrestricted := by
    intro rest
    have happend : ("unrestricted " ++ rest).toList =
        "unrestricted".toList ++ ' ' :: rest.toList := by
      simp
    rw [happend, replaceWord_sought_append hold (by decide)]
    simp [String.ext_iff]
  name_long_long := by
    have happend : "long long".toList = "long".toList ++ ' ' :: "long".toList := rfl
    rw [happend, replaceWord_sought_append hold (by decide), replaceWord_sought hold (by decide)]
    rfl

theorem replacing_of_not_mem
    {old new text : String}
    (hold : old ∉ soughtWords)
    (hnew : new ∉ soughtWords)
    (h : ' ' ∉ text.toList) :
    (replacing old new hold hnew).name text = if text = old then new else text := by
  change String.ofList (replaceWord _ _ _) = _
  rw [replaceWord_of_not_mem h]
  by_cases heq : text = old
  · rw [if_pos heq, if_pos (by rw [heq]), String.ofList_toList]
  · rw [if_neg heq, if_neg (by rwa [String.toList_inj]), String.ofList_toList]

end Renaming

/-! ## Escaped names -/

/-- What is read in front of a name is read in front of a low line, too. -/
theorem supports_of_name
    {c : Char} {more other : List Char}
    (hc : isNamePart c = true)
    (hother : ∀ d ∈ other.head?, isNumberPart d = false) :
    Supports (c :: more) other := by
  have hline : c ≠ '\n' := by
    rintro rfl
    exact absurd hc (by decide)
  refine supports_of_fits hline fun word hword => hword.of_head (fun hstop => ?_) (Or.inr hother)
  rw [hstop c rfl] at hc
  cases hc

/-- A text that may stand behind a low line. -/
def IsEscapable (name : String) : Prop :=
  name.toList.head?.any Char.isAlpha = true ∧ ∀ c ∈ name.toList, isNamePart c = true

instance (name : String) : Decidable (IsEscapable name) :=
  inferInstanceAs (Decidable (_ ∧ _))

theorem isNamePart_of_startsName
    {c : Char} {more : List Char}
    (h : startsName (c :: more) = true) :
    isNamePart c = true := by
  rcases startsName_cons_iff.1 h with hc | ⟨rfl | rfl, -⟩
  · simp [isNamePart, Char.isAlphanum, hc]
  · rfl
  · rfl

/-- A name has no blanks, its spelling begins with a part of a name, and no part of a name is behind
it. -/
theorem Word.Fits.name_parts
    {text : String} {marked : Bool} {rest : List Char}
    (h : Word.Fits ⟨.name marked, text⟩ rest) :
    ' ' ∉ text.toList ∧
      (∃ c more, Word.spelling ⟨.name marked, text⟩ = c :: more ∧ isNamePart c = true) ∧
      ∀ c ∈ rest.head?, isNamePart c = false := by
  have hblank : (∀ c ∈ text.toList, isNamePart c = true) → ' ' ∉ text.toList :=
    fun hparts hmem => absurd (hparts _ hmem) (by decide)
  generalize hword : (⟨.name marked, text⟩ : Word) = word at h
  cases h with
  | @name other rest hstarts hplain hparts hrest =>
      cases hword
      obtain ⟨c, more, htext⟩ := List.exists_cons_of_ne_nil (startsName_ne_nil hstarts)
      refine ⟨hblank hparts, ⟨c, more, htext, ?_⟩, hrest⟩
      rw [htext] at hstarts
      exact isNamePart_of_startsName hstarts
  | markedName hstarts hparts hrest =>
      cases hword
      exact ⟨hblank hparts, ⟨'_', _, rfl, rfl⟩, hrest⟩
  | @number isDecimal other rest hstarts hscan =>
      cases isDecimal <;> cases hword
  | _ =>
      cases hword

/-- The words of a text that is read are those of its tokens. -/
theorem wordsOf_eq_placed
    {text : List Char} {words : List Word}
    (h : wordsOf text = .ok words) :
    words = (placedTokens text).map Placed.word := by
  obtain ⟨found, last, hfound, rfl⟩ := exists_tokens_of_wordsOf h
  obtain ⟨-, hplaced, -⟩ := layout_of_tokens hfound
  rw [← hplaced, List.map_map]
  rfl

theorem exists_wordsOf_of_parse
    {text : List Char} {found : List Definition}
    (h : parse text = .ok found) :
    ∃ words, wordsOf text = .ok words := by
  cases hwords : wordsOf text with
  | ok words =>
      exact ⟨words, rfl⟩
  | error fault =>
      obtain ⟨line, hline⟩ := exists_fault_of_wordsOf hwords
      rw [parse, hline] at h
      cases h

/-- A name that does not give way stays, and loses the low line in front of it. -/
theorem Renaming.replacing_word
    {old new : String} {hold : old ∉ soughtWords} {hnew : new ∉ soughtWords}
    {word : Word} {rest : List Char}
    (hfits : word.Fits rest)
    (hne : word.text ≠ old) :
    (replacing old new hold hnew).word word = none.word word := by
  obtain ⟨kind, text⟩ := word
  cases kind with
  | name marked =>
      have hname := replacing_of_not_mem hold hnew hfits.name_parts.1
      rw [if_neg hne] at hname
      change (⟨.name false, (replacing old new hold hnew).name text⟩ : Word) = ⟨.name false, text⟩
      rw [hname]
  | _ =>
      rfl

/-- In the words of a text, too, one name gives way to another one behind a low line. -/
theorem exists_wordsOf_escaped
    {before after : List Char} {others : List Placed} {text name : String} {marked : Bool}
    {words : List Word}
    (hlayout : Layout [] before others (Word.spelling ⟨.name marked, text⟩ ++ after))
    (hfits : Word.Fits ⟨.name marked, text⟩ after)
    (hname : IsEscapable name)
    (hwords : wordsOf (before ++ (Word.spelling ⟨.name marked, text⟩ ++ after)) = .ok words) :
    ∃ front behind, words = front ++ ⟨.name marked, text⟩ :: behind ∧
      wordsOf (before ++ ('_' :: name.toList ++ after)) =
        .ok (front ++ ⟨.name true, name⟩ :: behind) := by
  obtain ⟨-, hfirst, hrest⟩ := hfits.name_parts
  have hnewFits : Word.Fits ⟨.name true, name⟩ after := .markedName hname.1 hname.2 hrest
  have hsupports : Supports (Word.spelling ⟨.name marked, text⟩ ++ after)
      (Word.spelling ⟨.name true, name⟩ ++ after) := by
    obtain ⟨c, more, hspelling, hc⟩ := hfirst
    rw [hspelling]
    refine supports_of_name hc ?_
    rintro d ⟨⟩
    rfl
  change ∃ front behind, _ ∧ wordsOf (before ++ (Word.spelling ⟨.name true, name⟩ ++ after)) = _
  rw [wordsOf_layout hlayout, wordsOf_word hfits] at hwords
  rw [wordsOf_layout (hlayout.of_supports hsupports), wordsOf_word hnewFits]
  cases hafter : wordsOf after with
  | error fault =>
      rw [hafter] at hwords
      cases hwords
  | ok behind =>
      rw [hafter] at hwords
      cases hwords
      exact ⟨_, behind, rfl, rfl⟩

/-- Where a name occurs once among words, a renaming changes no other word. -/
theorem map_word_escaped
    {text name : String} {front rest : List Word} {marked : Bool}
    (hold : text ∉ soughtWords)
    (hnew : name ∉ soughtWords)
    (hfits : ∀ word ∈ front ++ ⟨.name marked, text⟩ :: rest, ∃ behind, word.Fits behind)
    (honce : ((front ++ ⟨.name marked, text⟩ :: rest).map Word.text).count text = 1) :
    (front ++ ⟨.name true, name⟩ :: rest).map Renaming.none.word =
      (front ++ ⟨.name marked, text⟩ :: rest).map (Renaming.replacing text name hold hnew).word := by
  rw [List.map_append, List.map_cons, List.count_append, List.count_cons_self] at honce
  have hothers : ∀ part : List Word, (∀ word ∈ part, ∃ behind, word.Fits behind) →
      (part.map Word.text).count text = 0 →
      part.map Renaming.none.word = part.map (Renaming.replacing text name hold hnew).word := by
    intro part hpart hzero
    refine List.map_congr_left fun word hword => ?_
    obtain ⟨behind, hword'⟩ := hpart word hword
    refine (Renaming.replacing_word hword' ?_).symm
    rintro rfl
    exact List.count_eq_zero.1 hzero (List.mem_map_of_mem hword)
  obtain ⟨behind, hname⟩ := hfits ⟨.name marked, text⟩ (by simp)
  have hgiven : Renaming.none.word ⟨.name true, name⟩ =
      (Renaming.replacing text name hold hnew).word ⟨.name marked, text⟩ := by
    have hrenamed := Renaming.replacing_of_not_mem hold hnew hname.name_parts.1
    rw [if_pos rfl] at hrenamed
    exact congrArg (Word.mk (.name false)) hrenamed.symm
  have hfront := hothers front (fun word hword => hfits word (by simp [hword])) (by omega)
  have hrest := hothers rest (fun word hword => hfits word (by simp [hword])) (by omega)
  rw [List.map_append, List.map_append, List.map_cons, List.map_cons, hfront, hrest, hgiven]

/-- A name that occurs once may give way to any other one behind a low line, unless readers look for
that. -/
theorem parse_escaped
    {before after : List Char} {token : Token} {name : String} {found : List Definition}
    (hparse : parse (before ++ (token.spelling ++ after)) = .ok found)
    (hplaced : ⟨before, token⟩ ∈ placedTokens (before ++ (token.spelling ++ after)))
    (hisName : token.isName = true)
    (honce : ((placedTokens (before ++ (token.spelling ++ after))).map
      fun placed => placed.token.text).count token.text = 1)
    (hname : IsEscapable name)
    (hold : token.text ∉ soughtWords)
    (hnew : name ∉ soughtWords) :
    ∃ found', parse (before ++ ('_' :: name.toList ++ after)) = .ok found' ∧
      found'.map Definition.unlined =
        found.map (Renaming.replacing token.text name hold hnew).definition := by
  obtain ⟨words, hwords⟩ := exists_wordsOf_of_parse hparse
  have hall := wordsOf_eq_placed hwords
  obtain ⟨others, behind, htext, hlayout, hfits⟩ := exists_layout_of_placedTokens hplaced
  have hbehind : after = behind := List.append_cancel_left (List.append_cancel_left htext)
  subst hbehind
  obtain ⟨kind, text, line⟩ := token
  cases kind with
  | name marked =>
      obtain ⟨front, rest, rfl, hescaped⟩ := exists_wordsOf_escaped hlayout hfits hname hwords
      have hfit : ∀ word ∈ front ++ ⟨.name marked, text⟩ :: rest, ∃ behind, word.Fits behind := by
        intro word hword
        rw [hall] at hword
        obtain ⟨placed, hplaced, rfl⟩ := List.mem_map.1 hword
        obtain ⟨_, behind, _, _, hfits⟩ := exists_layout_of_placedTokens hplaced
        exact ⟨behind, hfits⟩
      have hcount : ((front ++ ⟨.name marked, text⟩ :: rest).map Word.text).count text = 1 := by
        rw [hall, List.map_map]
        exact honce
      have hgives := gives_of_words hwords hescaped
        (map_word_escaped hold hnew hfit hcount)
      rw [hparse] at hgives
      generalize parse (before ++ ('_' :: name.toList ++ after)) = outcome at hgives ⊢
      cases hgives with
      | definitions h =>
          exact ⟨_, rfl, h⟩
  | _ =>
      cases hisName

/-- A low line does not make a name of a keyword. -/
example :
    parse "interface _mixin \x7b \x7d;".toList =
      .error (1, .unexpected .identifier (some "\x7b")) := by
  cbv

end WebIdl
end FeatureProbes
