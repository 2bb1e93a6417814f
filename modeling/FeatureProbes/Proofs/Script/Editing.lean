import FeatureProbes.Proofs.Script.Occurrences
import Mathlib.Data.List.Dedup

/-!
# Carrying out edits

Edits come in any order and some more than once.  If two of them are the same or do not meet, each
is carried out once, and what stands between them stays as it is and where it is.  An edit is left
out only where it was carried out before.

The edits of a renaming are such edits, because the identifiers of a script stand one behind the
other.
-/

namespace FeatureProbes
namespace Script
namespace Edit

/-- A text that begins at an offset becomes another one: each span becomes the text of its edit, one
after the other, and what is between the spans is kept. -/
inductive Replaces : Nat → List Char → List Edit → List Char → Prop
  | nil
      {offset : Nat} {text : List Char} :
      Replaces offset text [] text
  | cons
      {offset : Nat} {gap old rest rest' : List Char} {edit : Edit} {edits : List Edit}
      (hstart : edit.start = offset + gap.length)
      (hstop : edit.stop = edit.start + old.length)
      (h : Replaces edit.stop rest edits rest') :
      Replaces offset (gap ++ (old ++ rest)) (edit :: edits) (gap ++ (edit.text ++ rest'))

/-- An edit replaces characters of a text. -/
def IsIn (text : List Char) (edit : Edit) : Prop :=
  edit.start < edit.stop ∧ edit.stop ≤ text.length

/-- Edits of a text stand one behind the other. -/
structure InRow (text : List Char) (edits : List Edit) : Prop where
  isIn : ∀ edit ∈ edits, edit.IsIn text
  apart : edits.Pairwise fun a b => a.stop ≤ b.start

/-- Two edits are the same or do not meet. -/
def AreApart (a b : Edit) : Prop :=
  a = b ∨ a.stop ≤ b.start ∨ b.stop ≤ a.start

/-- A text comes from carrying out each of some edits once.  Any other list of them, in any order
and with any repeats, gives the same text. -/
def CarriedOut (before : List Char) (edits : List Edit) (after : List Char) : Prop :=
  ∃ row, InRow before row ∧ (∀ edit, edit ∈ row ↔ edit ∈ edits) ∧ Replaces 0 before row after ∧
    ∀ others, (∀ edit, edit ∈ others ↔ edit ∈ edits) → applyAll others before = after

section Carry

variable {offset : Nat} {text : List Char} {edits row : List Edit}

theorem mem_of_start_lt
    {edit other : Edit}
    (hmem : other ∈ edit :: edits)
    (hlt : edit.start < other.start) :
    other ∈ edits := by
  refine (List.mem_cons.1 hmem).resolve_left fun heq => ?_
  rw [heq] at hlt
  exact Nat.lt_irrefl _ hlt

/-- In order of their starts, each edit is one of the row or begins in what has been replaced.  Such
a one was carried out before, so the rest of the row is still to come. -/
theorem applyFrom_eq_of_row
    (hsorted : edits.Pairwise fun a b => a.start ≤ b.start)
    (hproper : ∀ edit ∈ row, edit.start < edit.stop)
    (hapart : row.Pairwise fun a b => a.stop ≤ b.start)
    (hedits : ∀ edit ∈ edits, edit ∈ row ∨ edit.start < offset)
    (hrow : ∀ edit ∈ row, edit ∈ edits ∧ offset ≤ edit.start) :
    applyFrom offset text edits = applyFrom offset text row := by
  induction edits generalizing offset text row with
  | nil =>
      have hnone : row = [] := List.eq_nil_iff_forall_not_mem.2 fun edit hedit =>
        List.not_mem_nil (hrow edit hedit).1
      rw [hnone]
  | cons edit edits ih =>
      rw [List.pairwise_cons] at hsorted
      rw [List.forall_mem_cons] at hedits
      obtain ⟨hle, hsorted⟩ := hsorted
      obtain ⟨hedit, hedits⟩ := hedits
      by_cases hgone : edit.start < offset
      · rw [applyFrom, if_pos hgone]
        refine ih hsorted hproper hapart hedits fun other hother => ?_
        obtain ⟨hmem, hstart⟩ := hrow other hother
        exact ⟨mem_of_start_lt hmem (Nat.lt_of_lt_of_le hgone hstart), hstart⟩
      · cases row with
        | nil =>
            exact absurd (hedit.resolve_right hgone) List.not_mem_nil
        | cons first row =>
            rw [List.pairwise_cons] at hapart
            rw [List.forall_mem_cons] at hproper
            obtain ⟨hbehind, hapart⟩ := hapart
            obtain ⟨hfirst, hproper⟩ := hproper
            -- No edit begins before this one, so it is the first of the row.
            obtain rfl : edit = first := by
              refine (List.mem_cons.1 (hedit.resolve_right hgone)).resolve_right fun hlater => ?_
              have hstop := hbehind edit hlater
              rcases List.mem_cons.1 (hrow first List.mem_cons_self).1 with heq | hmem
              · rw [heq] at hfirst hstop
                omega
              · have hstart := hle first hmem
                omega
            rw [applyFrom, applyFrom, if_neg hgone, if_neg hgone]
            refine congrArg _ (ih hsorted hproper hapart (fun other hother => ?_) ?_)
            · rcases hedits other hother with hmem | hgone'
              · rcases List.mem_cons.1 hmem with rfl | hmem
                · exact Or.inr hfirst
                · exact Or.inl hmem
              · have hstart := hle other hother
                omega
            · intro other hother
              have hstop := hbehind other hother
              have hmem := (hrow other (List.mem_cons_of_mem edit hother)).1
              exact ⟨mem_of_start_lt hmem (Nat.lt_of_lt_of_le hfirst hstop), hstop⟩

/-- Edits in a row are all carried out. -/
theorem replaces_applyFrom
    (hin : ∀ edit ∈ row,
      offset ≤ edit.start ∧ edit.start ≤ edit.stop ∧ edit.stop ≤ offset + text.length)
    (hapart : row.Pairwise fun a b => a.stop ≤ b.start) :
    Replaces offset text row (applyFrom offset text row) := by
  induction row generalizing offset text with
  | nil =>
      exact .nil
  | cons edit row ih =>
      obtain ⟨hbehind, hapart⟩ := List.pairwise_cons.1 hapart
      obtain ⟨⟨hstart, hstop, hend⟩, hin⟩ := List.forall_mem_cons.1 hin
      obtain ⟨gap, behind, rfl, hgap⟩ : ∃ gap behind, text = gap ++ behind ∧
          edit.start = offset + gap.length := by
        refine ⟨text.take (edit.start - offset), text.drop (edit.start - offset),
          (List.take_append_drop _ _).symm, ?_⟩
        rw [List.length_take]
        omega
      rw [List.length_append] at hend hin
      obtain ⟨old, rest, rfl, hold⟩ : ∃ old rest, behind = old ++ rest ∧
          edit.stop = edit.start + old.length := by
        refine ⟨behind.take (edit.stop - edit.start), behind.drop (edit.stop - edit.start),
          (List.take_append_drop _ _).symm, ?_⟩
        rw [List.length_take]
        omega
      rw [List.length_append] at hin
      rw [applyFrom_cons edit rest row hgap (by omega)]
      refine .cons hgap hold (ih (fun other hother => ?_) hapart)
      obtain ⟨-, hproper, hlast⟩ := hin other hother
      exact ⟨hbehind other hother, hproper, by omega⟩

theorem pairwise_mergeSort_start
    (edits : List Edit) :
    (edits.mergeSort fun a b => a.start ≤ b.start).Pairwise fun a b => a.start ≤ b.start := by
  have htrans : ∀ a b c : Edit, decide (a.start ≤ b.start) = true →
      decide (b.start ≤ c.start) = true → decide (a.start ≤ c.start) = true := by
    intro a b c hab hbc
    rw [decide_eq_true_eq] at hab hbc ⊢
    exact Nat.le_trans hab hbc
  have htotal : ∀ a b : Edit,
      (decide (a.start ≤ b.start) || decide (b.start ≤ a.start)) = true := by
    intro a b
    rw [Bool.or_eq_true, decide_eq_true_eq, decide_eq_true_eq]
    exact Nat.le_total a.start b.start
  exact (List.pairwise_mergeSort htrans htotal edits).imp fun h => of_decide_eq_true h

theorem applyAll_eq_of_inRow
    (h : InRow text row)
    (hsame : ∀ edit, edit ∈ edits ↔ edit ∈ row) :
    applyAll edits text = applyFrom 0 text row := by
  refine applyFrom_eq_of_row (pairwise_mergeSort_start edits)
    (fun edit hedit => (h.isIn edit hedit).1) h.apart (fun edit hedit => Or.inl ?_)
    fun edit hedit => ⟨List.mem_mergeSort.2 ((hsame edit).2 hedit), Nat.zero_le _⟩
  exact (hsame edit).1 (List.mem_mergeSort.1 hedit)

theorem InRow.carriedOut
    (h : InRow text row)
    (hsame : ∀ edit, edit ∈ edits ↔ edit ∈ row) :
    CarriedOut text edits (applyAll edits text) := by
  have hrow := applyAll_eq_of_inRow h hsame
  refine ⟨row, h, fun edit => (hsame edit).symm, ?_, fun others hothers => ?_⟩
  · rw [hrow]
    refine replaces_applyFrom (fun edit hedit => ?_) h.apart
    obtain ⟨hproper, hend⟩ := h.isIn edit hedit
    omega
  · rw [hrow]
    exact applyAll_eq_of_inRow h fun edit => (hothers edit).trans (hsame edit)

/-- Edits that do not meet are a row, once they are in order and without repeats. -/
theorem exists_inRow
    (hin : ∀ edit ∈ edits, edit.IsIn text)
    (hapart : ∀ a ∈ edits, ∀ b ∈ edits, AreApart a b) :
    ∃ row, InRow text row ∧ ∀ edit, edit ∈ edits ↔ edit ∈ row := by
  let row := edits.dedup.mergeSort fun a b => a.start ≤ b.start
  have hmem : ∀ edit, edit ∈ edits ↔ edit ∈ row := fun edit =>
    List.mem_dedup.symm.trans List.mem_mergeSort.symm
  have hsorted : row.Pairwise fun a b => a.start ≤ b.start := pairwise_mergeSort_start edits.dedup
  have hnodup : row.Nodup := (List.mergeSort_perm _ _).nodup_iff.2 edits.nodup_dedup
  refine ⟨row, ⟨fun edit hedit => hin edit ((hmem edit).2 hedit), ?_⟩, hmem⟩
  refine (hsorted.and hnodup).imp_of_mem fun {a b} ha hb hab => ?_
  obtain ⟨hle, hne⟩ := hab
  rcases hapart a ((hmem a).2 ha) b ((hmem b).2 hb) with heq | hbefore | hbehind
  · exact absurd heq hne
  · exact hbefore
  · have hproper := (hin b ((hmem b).2 hb)).1
    omega

/-- Edits that are the same or do not meet are each carried out once. -/
theorem carriedOut_of_areApart
    (hin : ∀ edit ∈ edits, edit.IsIn text)
    (hapart : ∀ a ∈ edits, ∀ b ∈ edits, AreApart a b) :
    CarriedOut text edits (applyAll edits text) := by
  obtain ⟨row, hrow, hsame⟩ := exists_inRow hin hapart
  exact hrow.carriedOut hsame

/-! ## Edits of identifiers -/

theorem isIn_edit
    {place : Place}
    (fresh : String)
    (h : place.ident.SpelledIn text) :
    (place.edit fresh).IsIn text := by
  obtain ⟨front, word, rest, htext, hstart, hstop, hspells⟩ := h
  have hword := List.length_pos_iff.2 hspells.1
  have hlength := congrArg List.length htext
  rw [List.length_append, List.length_append] at hlength
  have hplace : place.ident.start < place.ident.stop ∧ place.ident.stop ≤ text.length := by
    omega
  unfold Place.edit
  split <;> exact hplace

/-- The edits of identifiers that stand one behind the other do so, too. -/
theorem inRow_edits
    {low high : Nat} {places : List Place}
    (names : List String)
    (fresh : String)
    (h : Ascending text low (places.map Place.ident) high) :
    InRow text (Place.edits names fresh places) := by
  induction places generalizing low with
  | nil =>
      exact ⟨nofun, .nil⟩
  | cons place places ih =>
      obtain ⟨-, hplace, hmore⟩ := h
      obtain ⟨hin, hapart⟩ := ih hmore
      rw [Place.edits_cons]
      split
      · refine ⟨List.forall_mem_cons.2 ⟨isIn_edit fresh hplace, hin⟩,
          List.pairwise_cons.2 ⟨fun edit hedit => ?_, hapart⟩⟩
        have hstart := (start_of_mem_edits hmore hedit).1
        unfold Place.edit
        split <;> exact hstart
      · exact ⟨hin, hapart⟩

theorem inRow_ofTree
    {tree : Tree}
    (names : List String)
    (fresh : String)
    (hparse : parse text = .ok tree) :
    InRow text (ofTree names fresh tree) := by
  obtain ⟨high, hascending⟩ := ascending_of_parse hparse
  obtain ⟨hin, hapart⟩ := inRow_edits names fresh hascending
  have hsub := ofTree_sublist names fresh tree
  exact ⟨fun edit hedit => hin edit (hsub.subset hedit), hapart.sublist hsub⟩

end Carry
end Edit

open Edit (AreApart CarriedOut IsIn)

/-- Edits of a text that are the same or do not meet are each carried out once, whatever their
order. A renaming carries out the edits of the tree in this way, and keeps a text that is no script
or has no variable with one of the names. -/
theorem renameVariables_carriedOut :
    (∀ (text : List Char) (edits : List Edit), (∀ edit ∈ edits, edit.IsIn text) →
      (∀ a ∈ edits, ∀ b ∈ edits, AreApart a b) →
        CarriedOut text edits (Edit.applyAll edits text)) ∧
    ∀ (names : List String) (fresh code : String),
      (∀ fault, parse code.toList = .error fault → renameVariables names fresh code = code) ∧
      ∀ tree, parse code.toList = .ok tree →
        ((∀ id ∈ tree.references ++ tree.bindings, id.name ∉ names) →
          renameVariables names fresh code = code) ∧
        CarriedOut code.toList (Edit.ofTree names fresh tree)
          (renameVariables names fresh code).toList := by
  refine ⟨fun text edits hin hapart => Edit.carriedOut_of_areApart hin hapart,
    fun names fresh code => ⟨fun fault hfault => ?_, fun tree hparse => ⟨fun habsent => ?_, ?_⟩⟩⟩
  · rw [renameVariables, hfault]
  · refine renameVariables_of_absent fun other hother => ?_
    rw [hparse] at hother
    cases hother
    exact habsent
  · rw [renameVariables, hparse]
    dsimp only
    rw [String.toList_ofList]
    exact (Edit.inRow_ofTree names fresh hparse).carriedOut fun _ => Iff.rfl

/-- Edits out of order, and one of them once more. -/
def shuffled : List Edit :=
  [⟨1, 2, ['y']⟩, ⟨0, 1, ['x']⟩, ⟨1, 2, ['y']⟩]

/-- A declared property that is written by its name alone, a name that no variable has, a text that
is no script, and edits out of order. -/
theorem renameVariables_carriedOut_pattern : ∃ tree,
    parse "var {a} = b;".toList = .ok tree ∧
    CarriedOut "var {a} = b;".toList (Edit.ofTree ["a"] "v" tree) "var {a: v} = b;".toList ∧
    (∀ id ∈ tree.references ++ tree.bindings, id.name ∉ ["c"]) ∧
    renameVariables ["c"] "v" "var {a} = b;" = "var {a} = b;" ∧
    parse ")".toList = .error .unexpectedToken ∧ renameVariables ["a"] "v" ")" = ")" ∧
    (∀ edit ∈ shuffled, edit.IsIn "abc".toList) ∧
    (∀ a ∈ shuffled, ∀ b ∈ shuffled, AreApart a b) ∧
    CarriedOut "abc".toList shuffled "xyc".toList := by
  obtain ⟨hedits, hscripts⟩ := renameVariables_carriedOut
  have hnames : (parse "var {a} = b;".toList).toOption.map
      (fun tree => (tree.references ++ tree.bindings).map Ident.name) = some ["b", "a"] := by
    decide +kernel
  have hafter : renameVariables ["a"] "v" "var {a} = b;" = "var {a: v} = b;" := by
    decide +kernel
  have hfault : parse ")".toList = .error .unexpectedToken := by
    have hread : (match parse ")".toList with
        | .error fault => some fault
        | .ok _ => none) = some .unexpectedToken := by
      decide +kernel
    cases hparse : parse ")".toList with
    | error fault =>
        rw [hparse] at hread
        rw [Option.some.inj hread]
    | ok tree =>
        rw [hparse] at hread
        cases hread
  have hin : ∀ edit ∈ shuffled, edit.IsIn "abc".toList := by
    simp [shuffled, Edit.IsIn]
  have hapart : ∀ a ∈ shuffled, ∀ b ∈ shuffled, AreApart a b := by
    simp [shuffled, AreApart]
  have happlied : Edit.applyAll shuffled "abc".toList = "xyc".toList := by
    have hrow : Edit.InRow "abc".toList [⟨0, 1, ['x']⟩, ⟨1, 2, ['y']⟩] :=
      ⟨by simp [Edit.IsIn], by simp⟩
    refine (Edit.applyAll_eq_of_inRow hrow fun edit => ?_).trans rfl
    simp only [shuffled, List.mem_cons, List.not_mem_nil, or_false]
    tauto
  cases hparse : parse "var {a} = b;".toList with
  | error fault =>
      rw [hparse] at hnames
      cases hnames
  | ok tree =>
      rw [hparse] at hnames
      have hnone : ∀ id ∈ tree.references ++ tree.bindings, id.name ∉ ["c"] := by
        intro id hid
        have hname := List.mem_map_of_mem (f := Ident.name) hid
        have hlisted : (tree.references ++ tree.bindings).map Ident.name = ["b", "a"] :=
          Option.some.inj hnames
        rw [hlisted] at hname
        intro hc
        rw [List.mem_singleton.1 hc] at hname
        revert hname
        decide
      have hcarried := ((hscripts ["a"] "v" "var {a} = b;").2 tree hparse).2
      rw [hafter] at hcarried
      have hshuffled := hedits "abc".toList shuffled hin hapart
      rw [happlied] at hshuffled
      exact ⟨tree, rfl, hcarried, hnone, ((hscripts ["c"] "v" _).2 tree hparse).1 hnone, hfault,
        (hscripts ["a"] "v" ")").1 _ hfault, hin, hapart, hshuffled⟩

end Script
end FeatureProbes
