import FeatureProbes.Proofs.Script.InOrder.Statements
import FeatureProbes.Proofs.Script.Renaming

/-!
# Occurrences of variables

A script is a row of words that are variables, with the text between them.  A renaming puts other
words in their places and perhaps the name of a property in front, and leaves the text between them
as it is.  Each word spells the name of its variable where it stands, before and after.
-/

namespace FeatureProbes
namespace Script

/-! ## Words in front of a rest -/

/-- No name goes on at the beginning of a text. -/
def EndsName (rest : List Char) : Prop :=
  ∀ c ∈ rest.head?, isNamePart c = false ∧ c ≠ '\\'

section Spells

variable {c : Char} {word front rest rest' : List Char} {name : String}

theorem endsName_rest_readName
    (mode : NameMode)
    (first : Bool)
    (text : List Char)
    (hfault : (readName mode first text).fault = none)
    (h : mode = .plain → first = true → (readName mode first text).spelling ≠ []) :
    EndsName (readName mode first text).rest := by
  fun_induction readName mode first text <;> simp_all [NameRead.cons, EndsName]

theorem NameRead.cons_eq_iff
    {decoded name : List Char} {read : NameRead} {fault : Option Fault} :
    read.cons c decoded = ⟨name, word, rest, fault⟩ ↔
      ∃ name' word', name = decoded ++ name' ∧ word = c :: word' ∧
        read = ⟨name', word', rest, fault⟩ := by
  constructor
  · rintro ⟨⟩
    exact ⟨_, _, rfl, rfl, rfl⟩
  · rintro ⟨name', word', rfl, rfl, rfl⟩
    rfl

theorem readName_of_endsName
    (hends : EndsName rest) :
    readName .plain false rest = ⟨[], [], rest, none⟩ := by
  cases rest with
  | nil =>
      rfl
  | cons c rest =>
      have hc := hends c rfl
      simp [readName, hc.1, hc.2]

/-- What is read does not depend on the rest as long as no name goes on there. -/
theorem readName_append_of_endsName
    {mode : NameMode} {first : Bool} {name : List Char}
    (h : readName mode first (word ++ rest) = ⟨name, word, rest, none⟩)
    (hword : mode = .plain → first = true → word ≠ [])
    (hends : EndsName rest') :
    readName mode first (word ++ rest') = ⟨name, word, rest', none⟩ := by
  generalize htext : word ++ rest = text at h
  fun_induction readName mode first text generalizing word name
  case case1 first | case5 first _ _ _ _ =>
    cases h
    obtain rfl : first = false := by simpa using hword
    exact readName_of_endsName hends
  -- Elsewhere there is a fault, or the text goes on with a character of the word.
  all_goals try cases h
  all_goals
    rename_i ih
    obtain ⟨name', word', rfl, rfl, hread⟩ := NameRead.cons_eq_iff.1 h
    have hnext := ih (by simp) (List.cons.inj htext).2 hread
    rw [List.cons_append]
    unfold readName
    grind [NameRead.cons]

/-- A word is as long as it can be. -/
theorem Spells.endsName
    (h : Spells word name rest) :
    EndsName rest := by
  have hends := endsName_rest_readName .plain true (word ++ rest)
  rw [h.2] at hends
  exact hends rfl fun _ _ => h.1

theorem Spells.of_endsName
    (h : Spells word name rest)
    (hends : EndsName rest') :
    Spells word name rest' :=
  ⟨h.1, readName_append_of_endsName h.2 (fun _ _ => h.1) hends⟩

/-- Where a word begins no other one ends, so there is a text between two words. -/
theorem Spells.not_endsName
    (h : Spells word name rest) :
    ¬EndsName (word ++ rest) := by
  obtain ⟨hne, hread⟩ := h
  intro hends
  cases word with
  | nil =>
      exact hne rfl
  | cons c word =>
      obtain ⟨hpart, hslash⟩ := hends c rfl
      have hstart : isNameStart c = false := by
        by_contra hstart
        simp [isNamePart_of_isNameStart (by simpa using hstart)] at hpart
      simp [readName, hstart, hslash] at hread

/-- A name spells itself. -/
theorem spells_of_isNameStart
    {name : List Char}
    (hstart : ∃ c ∈ name.head?, isNameStart c = true)
    (hpart : ∀ c ∈ name, isNamePart c = true)
    (hends : EndsName rest) :
    Spells name (String.ofList name) rest := by
  have hplain : ∀ more : List Char, (∀ c ∈ more, isNamePart c = true) →
      readName .plain false (more ++ rest) = ⟨more, more, rest, none⟩ := by
    intro more hmore
    induction more with
    | nil =>
        exact readName_of_endsName hends
    | cons c more ih =>
        have hc := hmore c List.mem_cons_self
        have hread := ih fun d hd => hmore d (List.mem_cons_of_mem c hd)
        simp [readName, hc, hread, NameRead.cons]
  cases name with
  | nil =>
      obtain ⟨c, hc, -⟩ := hstart
      cases hc
  | cons c name =>
      have hc : isNameStart c = true := by simpa using hstart
      have hread := hplain name fun d hd => hpart d (List.mem_cons_of_mem c hd)
      refine ⟨List.cons_ne_nil c name, ?_⟩
      simp [readName, hc, hread, NameRead.cons]

end Spells

/-! ## Occurrences -/

/-- A word of a text that is a variable, with its name and the text in front of it. -/
structure Occurrence where
  gap : List Char
  word : List Char
  name : String
  deriving Repr, DecidableEq

/-- The text of occurrences one after the other, with what follows the last one. -/
def spell (occurrences : List Occurrence) (tail : List Char) : List Char :=
  match occurrences with
  | [] => tail
  | occurrence :: more => occurrence.gap ++ (occurrence.word ++ spell more tail)

/-- Each word spells its name where it stands. -/
def InPlace (occurrences : List Occurrence) (tail : List Char) : Prop :=
  match occurrences with
  | [] => True
  | occurrence :: more =>
      Spells occurrence.word occurrence.name (spell more tail) ∧ InPlace more tail

/-- What a renaming makes of an occurrence: it is kept, or the new name takes its place, behind the
name of a property if it is one. -/
inductive Occurrence.Becomes
    (names : List String)
    (fresh : String) : Occurrence → Occurrence → Prop where
  | kept
      (occurrence : Occurrence) :
      Becomes names fresh occurrence occurrence
  | replaced
      {occurrence : Occurrence}
      (hname : occurrence.name ∈ names) :
      Becomes names fresh occurrence ⟨occurrence.gap, fresh.toList, fresh⟩
  | keyed
      {occurrence : Occurrence}
      (hname : occurrence.name ∈ names) :
      Becomes names fresh occurrence
        ⟨occurrence.gap ++ (occurrence.name.toList ++ [':', ' ']), fresh.toList, fresh⟩

/-- One text becomes another by what a renaming makes of its words, which spell the given names. -/
def RenamesTo
    (names : List String)
    (fresh : String)
    (spelled : List String)
    (before after : List Char) : Prop :=
  ∃ (changes : List (Occurrence × Occurrence)) (tail : List Char),
    before = spell (changes.map Prod.fst) tail ∧ after = spell (changes.map Prod.snd) tail ∧
    InPlace (changes.map Prod.fst) tail ∧ (changes.map fun c => c.1.name) = spelled ∧
    ∀ c ∈ changes, c.1.Becomes names fresh c.2

/-- The words spell their names after the renaming, too, and different names stay different unless
both are among the old names and the new one. -/
def RenamesApart
    (names : List String)
    (fresh : String)
    (spelled : List String)
    (before after : List Char) : Prop :=
  ∃ (changes : List (Occurrence × Occurrence)) (tail : List Char),
    before = spell (changes.map Prod.fst) tail ∧ after = spell (changes.map Prod.snd) tail ∧
    InPlace (changes.map Prod.fst) tail ∧ InPlace (changes.map Prod.snd) tail ∧
    (changes.map fun c => c.1.name) = spelled ∧
    (∀ c ∈ changes, c.1.Becomes names fresh c.2) ∧
    ∀ c ∈ changes, ∀ d ∈ changes, c.1.name ≠ d.1.name →
      ¬(c.1.name ∈ fresh :: names ∧ d.1.name ∈ fresh :: names) → c.2.name ≠ d.2.name

section Changes

variable {names : List String} {fresh : String} {changes : List (Occurrence × Occurrence)}
  {tail : List Char}

theorem renamesTo_nil
    (text : List Char) :
    RenamesTo names fresh [] text text :=
  ⟨[], text, rfl, rfl, trivial, rfl, by simp⟩

/-- One more word in front. -/
theorem RenamesTo.cons
    {first first' : Occurrence} {spelled : List String} {before after : List Char}
    (h : RenamesTo names fresh spelled before after)
    (hspells : Spells first.word first.name before)
    (hbecomes : first.Becomes names fresh first') :
    RenamesTo names fresh (first.name :: spelled) (first.gap ++ (first.word ++ before))
      (first'.gap ++ (first'.word ++ after)) := by
  obtain ⟨changes, tail, rfl, rfl, hplace, rfl, hall⟩ := h
  exact ⟨(first, first') :: changes, tail, rfl, rfl, ⟨hspells, hplace⟩, rfl,
    List.forall_mem_cons.2 ⟨hbecomes, hall⟩⟩

/-- Where no name goes on, none goes on after a renaming. -/
theorem endsName_spell_becomes
    (hbecomes : ∀ c ∈ changes, c.1.Becomes names fresh c.2)
    (hplace : InPlace (changes.map Prod.fst) tail)
    (hends : EndsName (spell (changes.map Prod.fst) tail)) :
    EndsName (spell (changes.map Prod.snd) tail) := by
  cases changes with
  | nil =>
      exact hends
  | cons change changes =>
      obtain ⟨before, after⟩ := change
      obtain ⟨gap, word, name⟩ := before
      cases gap with
      | nil =>
          exact absurd hends hplace.1.not_endsName
      | cons c gap =>
          have hchange : Occurrence.Becomes names fresh ⟨c :: gap, word, name⟩ after :=
            hbecomes _ List.mem_cons_self
          cases hchange <;> exact hends

/-- A renaming to a name keeps each word in place. -/
theorem inPlace_becomes
    (hstart : ∃ c ∈ fresh.toList.head?, isNameStart c = true)
    (hpart : ∀ c ∈ fresh.toList, isNamePart c = true)
    (hbecomes : ∀ c ∈ changes, c.1.Becomes names fresh c.2)
    (hplace : InPlace (changes.map Prod.fst) tail) :
    InPlace (changes.map Prod.snd) tail := by
  induction changes with
  | nil =>
      trivial
  | cons change changes ih =>
      obtain ⟨hword, hplace⟩ := hplace
      have hmore : ∀ c ∈ changes, c.1.Becomes names fresh c.2 :=
        fun c hc => hbecomes c (List.mem_cons_of_mem change hc)
      have hends := endsName_spell_becomes hmore hplace hword.endsName
      have hfresh : Spells fresh.toList fresh (spell (changes.map Prod.snd) tail) := by
        have hspells := spells_of_isNameStart hstart hpart hends
        rwa [String.ofList_toList] at hspells
      refine ⟨?_, ih hmore hplace⟩
      obtain ⟨before, after⟩ := change
      have hchange : before.Becomes names fresh after := hbecomes _ List.mem_cons_self
      cases hchange with
      | kept =>
          exact hword.of_endsName hends
      | replaced | keyed =>
          exact hfresh

/-- Different names stay different, unless both are among the old names and the new one. -/
theorem Occurrence.Becomes.name_ne
    {before after before' after' : Occurrence}
    (h : before.Becomes names fresh after)
    (h' : before'.Becomes names fresh after')
    (hne : before.name ≠ before'.name)
    (hboth : ¬(before.name ∈ fresh :: names ∧ before'.name ∈ fresh :: names)) :
    after.name ≠ after'.name := by
  have hname : ∀ {o o' : Occurrence}, o.Becomes names fresh o' →
      o'.name = o.name ∨ o.name ∈ names ∧ o'.name = fresh := by
    intro o o' h
    cases h with
    | kept =>
        exact Or.inl rfl
    | replaced hname | keyed hname =>
        exact Or.inr ⟨hname, rfl⟩
  simp only [List.mem_cons] at hboth
  intro heq
  obtain hkept | ⟨hmem, hnew⟩ := hname h <;> obtain hkept' | ⟨hmem', hnew'⟩ := hname h'
  · exact hne (by rw [← hkept, heq, hkept'])
  · exact hboth ⟨Or.inl (by rw [← hkept, heq, hnew']), Or.inr hmem'⟩
  · exact hboth ⟨Or.inr hmem, Or.inl (by rw [← hkept', ← heq, hnew])⟩
  · exact hboth ⟨Or.inr hmem, Or.inr hmem'⟩

theorem RenamesTo.apart
    {spelled : List String} {before after : List Char}
    (h : RenamesTo names fresh spelled before after)
    (hstart : ∃ c ∈ fresh.toList.head?, isNameStart c = true)
    (hpart : ∀ c ∈ fresh.toList, isNamePart c = true) :
    RenamesApart names fresh spelled before after := by
  obtain ⟨changes, tail, hbefore, hafter, hplace, hnames, hall⟩ := h
  refine ⟨changes, tail, hbefore, hafter, hplace, inPlace_becomes hstart hpart hall hplace, hnames,
    hall, fun c hc d hd hne hboth => ?_⟩
  exact (hall c hc).name_ne (hall d hd) hne hboth

end Changes

/-! ## Carrying out edits -/

theorem Ascending.le_of_mem
    {text : List Char} {low high : Nat} {id : Ident} {ids : List Ident}
    (h : Ascending text low ids high)
    (hid : id ∈ ids) :
    low ≤ id.start ∧ id.start ≤ id.stop := by
  induction ids generalizing low with
  | nil =>
      cases hid
  | cons first ids ih =>
      obtain ⟨hlow, hfirst, hmore⟩ := h
      have hle := hfirst.start_le_stop
      rcases List.mem_cons.1 hid with rfl | hid
      · exact ⟨hlow, hle⟩
      · obtain ⟨hstop, hid⟩ := ih hmore hid
        exact ⟨by omega, hid⟩

namespace Edit

section Carry

variable {names : List String} {fresh : String} {text : List Char} {low high : Nat}
  {places : List Place} {edits : List Edit}

theorem start_of_mem_edits
    {edit : Edit}
    (h : Ascending text low (places.map Place.ident) high)
    (hedit : edit ∈ Place.edits names fresh places) :
    low ≤ edit.start ∧ edit.start ≤ edit.stop := by
  obtain ⟨place, hplace, rfl⟩ := List.mem_map.1 hedit
  have hid := h.le_of_mem (List.mem_map_of_mem (List.mem_of_mem_filter hplace))
  unfold Place.edit
  split <;> exact hid

/-- The replacements of identifiers that stand one after the other are in order. -/
theorem pairwise_edits
    (h : Ascending text low (places.map Place.ident) high) :
    (Place.edits names fresh places).Pairwise fun a b => a.start ≤ b.start := by
  induction places generalizing low with
  | nil =>
      exact .nil
  | cons place places ih =>
      obtain ⟨hlow, hplace, hmore⟩ := h
      rw [Place.edits_cons]
      split
      · refine List.pairwise_cons.2 ⟨fun edit hedit => ?_, ih hmore⟩
        have hstart := (start_of_mem_edits hmore hedit).1
        have hle := hplace.start_le_stop
        unfold Place.edit
        split <;> exact Nat.le_trans hle hstart
      · exact ih hmore

/-- What stands in front of all edits is kept. -/
theorem applyFrom_append
    {skipped : List Char} {offset : Nat}
    (rest : List Char)
    (h : ∀ edit ∈ edits, offset + skipped.length ≤ edit.start ∧ edit.start ≤ edit.stop) :
    applyFrom offset (skipped ++ rest) edits =
      skipped ++ applyFrom (offset + skipped.length) rest edits := by
  cases edits with
  | nil =>
      rfl
  | cons edit edits =>
      obtain ⟨hstart, hstop⟩ := h edit List.mem_cons_self
      have htake : (skipped ++ rest).take (edit.start - offset) =
          skipped ++ rest.take (edit.start - (offset + skipped.length)) := by
        rw [List.take_append, List.take_of_length_le (by omega), Nat.sub_sub]
      have hdrop : (skipped ++ rest).drop (edit.stop - offset) =
          rest.drop (edit.stop - (offset + skipped.length)) := by
        rw [List.drop_append, List.drop_of_length_le (by omega), Nat.sub_sub, List.nil_append]
      rw [applyFrom, applyFrom, if_neg (by omega), if_neg (by omega), htake, hdrop]
      simp only [List.append_assoc]

/-- An edit takes the place of the word at its offsets. -/
theorem applyFrom_cons
    {gap word : List Char} {offset : Nat}
    (edit : Edit)
    (rest : List Char)
    (edits : List Edit)
    (hstart : edit.start = offset + gap.length)
    (hstop : edit.stop = offset + gap.length + word.length) :
    applyFrom offset (gap ++ (word ++ rest)) (edit :: edits) =
      gap ++ (edit.text ++ applyFrom edit.stop rest edits) := by
  have htake : (gap ++ (word ++ rest)).take (edit.start - offset) = gap := by
    rw [hstart, Nat.add_sub_cancel_left, List.take_left]
  have hdrop : (gap ++ (word ++ rest)).drop (edit.stop - offset) = rest := by
    rw [hstop, Nat.add_assoc, Nat.add_sub_cancel_left, ← List.append_assoc, ← List.length_append,
      List.drop_left]
  rw [applyFrom, if_neg (by omega), htake, hdrop, List.append_assoc]

/-- The text from an offset on goes on with a gap and then a word where an identifier stands. -/
theorem exists_gap_of_spelledIn
    {id : Ident} {front rest : List Char}
    (h : id.SpelledIn text)
    (htext : text = front ++ rest)
    (hlow : front.length ≤ id.start) :
    ∃ gap word rest', rest = gap ++ (word ++ rest') ∧ id.start = front.length + gap.length ∧
      id.stop = (front ++ gap ++ word).length ∧ Spells word id.name rest' := by
  obtain ⟨front', word, rest', htext', hstart, hstop, hspells⟩ := h
  obtain ⟨gap, rfl⟩ : front <+: front' := by
    refine List.prefix_of_prefix_length_le ⟨rest, htext.symm⟩ ⟨_, htext'.symm⟩ ?_
    rwa [← hstart]
  refine ⟨gap, word, rest', ?_, ?_, ?_, hspells⟩
  · rw [htext, List.append_assoc] at htext'
    exact List.append_cancel_left htext'
  · rw [hstart, List.length_append]
  · rw [hstop, ← List.length_append]

/-- Edits of identifiers that stand one after the other change the words that spell them, and leave
the text between them as it is. -/
theorem renamesTo_applyFrom
    {front rest : List Char}
    (h : Ascending text low (places.map Place.ident) high)
    (htext : text = front ++ rest)
    (hlow : low = front.length)
    (hsub : edits.Sublist (Place.edits names fresh places)) :
    RenamesTo names fresh (places.map fun place => place.ident.name) rest
      (applyFrom low rest edits) := by
  induction places generalizing low front rest edits with
  | nil =>
      obtain rfl : edits = [] := List.sublist_nil.1 hsub
      exact renamesTo_nil rest
  | cons place places ih =>
      obtain ⟨hstart, hplace, hmore⟩ := h
      obtain ⟨gap, word, rest, rfl, hgap, hstop, hspells⟩ :=
        exists_gap_of_spelledIn hplace htext (hlow ▸ hstart)
      have htext' : text = (front ++ gap ++ word) ++ rest := by
        simp [htext]
      have hend : place.ident.stop = low + gap.length + word.length := by
        rw [hstop, hlow, List.length_append, List.length_append]
      let first : Occurrence := ⟨gap, word, place.ident.name⟩
      -- A word that no edit is about is kept.
      have hkept : ∀ edits : List Edit, edits.Sublist (Place.edits names fresh places) →
          RenamesTo names fresh ((place :: places).map fun place => place.ident.name)
            (gap ++ (word ++ rest)) (applyFrom low (gap ++ (word ++ rest)) edits) := by
        intro edits hsub
        have hlater : ∀ edit ∈ edits,
            low + (gap ++ word).length ≤ edit.start ∧ edit.start ≤ edit.stop := by
          intro edit hedit
          have hbounds := start_of_mem_edits hmore (hsub.subset hedit)
          rw [List.length_append]
          omega
        have happly := applyFrom_append rest hlater
        rw [List.length_append, ← Nat.add_assoc, ← hend, List.append_assoc, List.append_assoc]
          at happly
        rw [happly]
        exact (ih hmore htext' hstop hsub).cons hspells (.kept first)
      rw [Place.edits_cons] at hsub
      split at hsub
      · rename_i hname
        have hname : first.name ∈ names := by simpa using hname
        cases hsub with
        | cons _ hsub =>
            exact hkept _ hsub
        | cons_cons _ hsub =>
            have hrest := ih hmore htext' hstop hsub
            rw [← hlow] at hgap
            unfold Place.edit
            split
            · rw [applyFrom_cons (.ofShorthand fresh place.ident) rest _ hgap hend]
              have hkeyed := hrest.cons hspells (.keyed hname)
              simpa [ofShorthand, first] using hkeyed
            · rw [applyFrom_cons (.ofIdent fresh place.ident) rest _ hgap hend]
              exact hrest.cons hspells (.replaced hname)
      · exact hkept edits hsub

end Carry

end Edit

/-- A renaming of a script to a name changes words that spell its variables, and only them. -/
theorem renamesTo_renameVariables
    {code : String} {tree : Tree}
    (names : List String)
    (fresh : String)
    (hparse : parse code.toList = .ok tree) :
    RenamesTo names fresh (tree.idents.map Ident.name) code.toList
      (renameVariables names fresh code).toList := by
  obtain ⟨high, hascending⟩ := ascending_of_parse hparse
  have hsub := Edit.ofTree_sublist names fresh tree
  have hsorted : (Edit.ofTree names fresh tree).mergeSort (fun a b => a.start ≤ b.start) =
      Edit.ofTree names fresh tree := by
    have hpairwise := (Edit.pairwise_edits hascending).sublist hsub
    exact List.mergeSort_of_pairwise (hpairwise.imp fun h => decide_eq_true h)
  have hrenames := Edit.renamesTo_applyFrom hascending (List.nil_append _).symm rfl hsub
  rw [renameVariables, hparse]
  dsimp only
  rw [String.toList_ofList, Edit.applyAll, hsorted, Tree.idents, List.map_map]
  exact hrenames

end Script
end FeatureProbes
