import FeatureProbes.Proofs.Text.Lines
import Mathlib.Data.List.Basic

/-!
# Texts that are laid out anew

Indentation changes a text only in its blanks, and only where a line feed is among them: the line
end, the blank lines after it and the blanks that begin the next line give way to other blanks with
a line feed.  Trimming takes away the blanks at the very end.  Two texts that are related in this
way begin alike up to the first blank, wherever one looks at them.
-/

namespace FeatureProbes
namespace Text

/-- To see that a text has no blanks it is enough to go through its characters. -/
theorem forall_visible
    {text : List Char}
    (h : (text.all fun c => !isBlank c) = true) :
    ∀ c ∈ text, isBlank c = false := by
  simpa using h

/-- Blanks among which there is a line feed. -/
structure IsBreak (gap : List Char) : Prop where
  blank : ∀ c ∈ gap, isBlank c = true
  lineFeed : '\n' ∈ gap

theorem IsBreak.append
    {gap blanks : List Char}
    (h : IsBreak gap)
    (hblank : ∀ c ∈ blanks, isBlank c = true) :
    IsBreak (gap ++ blanks) :=
  ⟨List.forall_mem_append.2 ⟨h.blank, hblank⟩, List.mem_append_left blanks h.lineFeed⟩

theorem IsBreak.isBlank_head
    {gap : List Char}
    (h : IsBreak gap)
    (text : List Char) :
    ∀ c ∈ (gap ++ text).head?, isBlank c = true := by
  rcases gap with _ | ⟨d, gap⟩
  · exact absurd h.lineFeed List.not_mem_nil
  · rintro c ⟨⟩
    exact h.blank d List.mem_cons_self

/-- A text is laid out anew in front of an ending: blanks with a line feed become other blanks with
a line feed, and a line feed and the ending take the place of the blanks at the end. -/
inductive Relaid (ending : List Char) : List Char → List Char → Prop
  | finish
      {blanks : List Char}
      (h : ∀ c ∈ blanks, isBlank c = true) :
      Relaid ending blanks ('\n' :: ending)
  | keep
      (c : Char) {text text' : List Char}
      (h : Relaid ending text text') :
      Relaid ending (c :: text) (c :: text')
  | gap
      {old new text text' : List Char}
      (hold : IsBreak old)
      (hnew : IsBreak new)
      (h : Relaid ending text text') :
      Relaid ending (old ++ text) (new ++ text')

/-- A text ends in a character that can be seen, if it is not empty. -/
def EndsVisibly (text : List Char) : Prop :=
  ∀ c ∈ text.getLast?, isBlank c = false

theorem EndsVisibly.of_forall
    {text : List Char}
    (h : ∀ c ∈ text, isBlank c = false) :
    EndsVisibly text :=
  fun c hc => h c (List.mem_of_getLast? hc)

theorem EndsVisibly.exists_append
    {text : List Char}
    (h : EndsVisibly text)
    (hne : text ≠ []) :
    ∃ front c, text = front ++ [c] ∧ isBlank c = false := by
  obtain ⟨front, c, rfl⟩ := (List.eq_nil_or_concat text).resolve_left hne
  rw [List.concat_eq_append] at h ⊢
  exact ⟨front, c, rfl, h c (by simp)⟩

theorem EndsVisibly.not_all_blank
    {text : List Char}
    (h : EndsVisibly text)
    (hne : text ≠ []) :
    ¬∀ c ∈ text, isBlank c = true := by
  obtain ⟨front, c, rfl, hc⟩ := h.exists_append hne
  intro hblank
  rw [hblank c (by simp)] at hc
  cases hc

theorem EndsVisibly.append
    {front text : List Char}
    (hfront : EndsVisibly front)
    (htext : EndsVisibly text) :
    EndsVisibly (front ++ text) := by
  rcases eq_or_ne text [] with rfl | hne
  · rwa [List.append_nil]
  · intro c hc
    refine htext c ?_
    rwa [List.getLast?_append_of_ne_nil front hne] at hc

theorem EndsVisibly.of_append
    {text : List Char}
    (front : List Char)
    (h : EndsVisibly (front ++ text))
    (hne : text ≠ []) :
    EndsVisibly text := by
  intro c hc
  refine h c ?_
  rwa [List.getLast?_append_of_ne_nil front hne]

section Relaid

variable {ending text text' : List Char}

theorem Relaid.append_left
    (front : List Char)
    (h : Relaid ending text text') :
    Relaid ending (front ++ text) (front ++ text') := by
  induction front with
  | nil =>
      exact h
  | cons c front ih =>
      exact ih.keep c

/-- What a text becomes is never empty. -/
theorem Relaid.ne_nil
    (h : Relaid ending text text') :
    text' ≠ [] := by
  cases h with
  | finish | keep =>
      exact nofun
  | gap hold hnew =>
      exact List.append_ne_nil_of_left_ne_nil (List.ne_nil_of_mem hnew.lineFeed) _

/-- What stands on one line and ends in something that can be seen stays as it is. -/
theorem Relaid.exists_eq_append
    {front : List Char}
    (hline : '\n' ∉ front)
    (hvisible : EndsVisibly front)
    (h : Relaid ending (front ++ text) text') :
    ∃ rest, text' = front ++ rest ∧ Relaid ending text rest := by
  induction front generalizing text' with
  | nil =>
      exact ⟨text', rfl, h⟩
  | cons c front ih =>
      have hblank := hvisible.not_all_blank (by simp)
      generalize hwhole : c :: front ++ text = whole at h
      cases h with
      | finish hall =>
          refine absurd (fun d hd => hall d ?_) hblank
          exact hwhole ▸ List.mem_append_left text hd
      | @keep d rest rest' h =>
          obtain ⟨rfl, rfl⟩ := List.cons.inj hwhole
          have hvisible' : EndsVisibly front := by
            rcases eq_or_ne front [] with rfl | hne
            · exact nofun
            · exact EndsVisibly.of_append [c] hvisible hne
          obtain ⟨rest, rfl, hrest⟩ :=
            ih (fun hmem => hline (List.mem_cons_of_mem c hmem)) hvisible' h
          exact ⟨rest, rfl, hrest⟩
      | @gap old new rest rest' hold hnew h =>
          rcases List.append_eq_append_iff.1 hwhole with ⟨more, rfl, -⟩ | ⟨more, hfront, -⟩
          · exact absurd (fun d hd => hold.blank d (List.mem_append_left more hd)) hblank
          · exact absurd (hfront ▸ List.mem_append_left more hold.lineFeed) hline

end Relaid

/-! ## Texts that begin alike -/

/-- Two texts begin with the same texts that have no blanks in them. -/
def SameFront (text text' : List Char) : Prop :=
  ∀ front, (∀ c ∈ front, isBlank c = false) → (front <+: text ↔ front <+: text')

section SameFront

variable {text text' : List Char} {p : Char → Bool}

theorem SameFront.symm
    (h : SameFront text text') :
    SameFront text' text :=
  fun front hfront => (h front hfront).symm

theorem SameFront.refl
    (text : List Char) :
    SameFront text text :=
  fun _ _ => Iff.rfl

theorem sameFront_of_blank
    (h : ∀ c ∈ text.head?, isBlank c = true)
    (h' : ∀ c ∈ text'.head?, isBlank c = true) :
    SameFront text text' := by
  have hnil : ∀ {whole front : List Char}, (∀ c ∈ whole.head?, isBlank c = true) →
      (∀ c ∈ front, isBlank c = false) → front <+: whole → front = [] := by
    rintro whole (_ | ⟨c, front⟩) hwhole hfront ⟨rest, rfl⟩
    · rfl
    · have hc := hwhole c rfl
      rw [hfront c List.mem_cons_self] at hc
      cases hc
  intro front hfront
  constructor
  · intro hprefix
    rw [hnil h hfront hprefix]
    exact List.nil_prefix
  · intro hprefix
    rw [hnil h' hfront hprefix]
    exact List.nil_prefix

theorem SameFront.cons
    (h : SameFront text text')
    (c : Char) :
    SameFront (c :: text) (c :: text') := by
  rintro (_ | ⟨d, front⟩) hfront
  · simp
  · rw [List.cons_prefix_cons, List.cons_prefix_cons, h front (List.forall_mem_cons.1 hfront).2]

theorem SameFront.append
    (h : SameFront text text')
    (front : List Char) :
    SameFront (front ++ text) (front ++ text') := by
  induction front with
  | nil =>
      exact h
  | cons c front ih =>
      exact ih.cons c

/-- Behind visible characters there is one of a class in both texts or in none. -/
theorem SameFront.exists_prefix_iff
    (h : SameFront text text')
    (hp : ∀ c, isBlank c = true → p c = false)
    {front : List Char}
    (hfront : ∀ c ∈ front, isBlank c = false) :
    (∃ c, p c = true ∧ front ++ [c] <+: text) ↔ ∃ c, p c = true ∧ front ++ [c] <+: text' := by
  refine exists_congr fun c => and_congr_right fun hc => h _ ?_
  refine List.forall_mem_append.2 ⟨hfront, List.forall_mem_singleton.2 ?_⟩
  rw [Bool.eq_false_iff]
  intro hblank
  rw [hp c hblank] at hc
  cases hc

/-- Texts that begin alike have the same first character, unless it is a blank. -/
theorem SameFront.head?_iff
    (h : SameFront text text')
    {c : Char}
    (hc : isBlank c = false) :
    text.head? = some c ↔ text'.head? = some c := by
  have hhead : ∀ whole : List Char, whole.head? = some c ↔ [c] <+: whole := by
    rintro (_ | ⟨d, whole⟩)
    · simp
    · simp [eq_comm]
  rw [hhead, hhead, h [c] (by simpa using hc)]

/-- A class without blanks has the first characters of both texts or of none. -/
theorem SameFront.any_head?
    (h : SameFront text text')
    (hp : ∀ c, isBlank c = true → p c = false) :
    text.head?.any p = text'.head?.any p := by
  have hhead : ∀ whole : List Char,
      whole.head?.any p = true ↔ ∃ c, p c = true ∧ [] ++ [c] <+: whole := by
    rintro (_ | ⟨d, whole⟩)
    · simp
    · simp
  rw [Bool.eq_iff_iff, hhead, hhead, h.exists_prefix_iff hp (List.forall_mem_nil _)]

theorem SameFront.isPrefixOf_eq
    (h : SameFront text text')
    {front : List Char}
    (hfront : ∀ c ∈ front, isBlank c = false) :
    front.isPrefixOf text = front.isPrefixOf text' := by
  rw [Bool.eq_iff_iff, List.isPrefixOf_iff_prefix, List.isPrefixOf_iff_prefix, h front hfront]

end SameFront

/-- A text and what it becomes begin alike. -/
theorem Relaid.sameFront
    {ending text text' : List Char}
    (h : Relaid ending text text') :
    SameFront text text' := by
  induction h with
  | finish hall =>
      refine sameFront_of_blank (fun c hc => hall c (List.mem_of_mem_head? hc)) ?_
      rintro c ⟨⟩
      rfl
  | keep c _ ih =>
      exact ih.cons c
  | gap hold hnew _ _ =>
      exact sameFront_of_blank (hold.isBlank_head _) (hnew.isBlank_head _)

/-! ## Indentation -/

/-- Behind the first line end stand the other lines; a carriage return before it belongs to it. -/
theorem exists_lines_append_lineFeed
    {line : List Char}
    (rest : List Char)
    (hline : '\n' ∉ line) :
    ∃ kept, (line = kept ∨ line = kept ++ ['\r']) ∧
      lines (line ++ '\n' :: rest) = kept :: lines rest := by
  induction line with
  | nil =>
      exact ⟨[], Or.inl rfl, by simp [lines]⟩
  | cons c line ih =>
      rw [List.mem_cons, not_or] at hline
      obtain ⟨kept, hkept, hlines⟩ := ih hline.2
      by_cases hreturn : c = '\r' ∧ line = []
      · obtain ⟨rfl, rfl⟩ := hreturn
        exact ⟨[], Or.inr rfl, by simp [lines]⟩
      · refine ⟨c :: kept, by simpa using hkept, ?_⟩
        have hstep : lines (c :: (line ++ '\n' :: rest)) =
            consLine c (lines (line ++ '\n' :: rest)) := by
          refine lines_cons (fun heq => hline.1 heq.symm) fun hc => ?_
          rcases line with _ | ⟨d, line⟩
          · exact absurd ⟨hc, rfl⟩ hreturn
          · rintro ⟨⟩
            exact hline.2 List.mem_cons_self
        rw [List.cons_append, hstep, hlines]
        rfl

theorem lines_ne_nil
    {text : List Char}
    (h : text ≠ []) :
    lines text ≠ [] := by
  fun_cases lines text with
  | case1 =>
      exact absurd rfl h
  | case2 | case3 =>
      simp
  | case4 c rest =>
      cases lines rest <;> simp [consLine]

theorem indent_of_lines
    {text kept rest : List Char}
    (h : lines text = kept :: lines rest)
    (hrest : rest ≠ []) :
    indent text = indentLine kept ++ '\n' :: indent rest := by
  rw [indent, indent, h, List.map_cons]
  obtain ⟨next, more, hmore⟩ := List.exists_cons_of_ne_nil (lines_ne_nil hrest)
  rw [hmore, List.map_cons, List.intercalate_cons_cons]
  simp

theorem endsVisibly_trimEnd
    (text : List Char) :
    EndsVisibly (trimEnd text) := by
  have hnil : EndsVisibly [] := by
    intro c hc
    cases hc
  induction text with
  | nil =>
      exact hnil
  | cons c rest ih =>
      rw [trimEnd]
      split
      · split
        · exact hnil
        · rename_i hc
          intro d hd
          cases hd
          simpa using hc
      · rename_i hkept
        intro d hd
        refine ih d ?_
        obtain ⟨e, kept, hrest⟩ := List.exists_cons_of_ne_nil hkept
        rw [hrest] at hd ⊢
        rwa [List.getLast?_cons_cons] at hd

/-- Indentation lays a text out anew, wherever it stands behind a line feed. -/
theorem relaid_indent
    {old new text blanks : List Char}
    (ending : List Char)
    (hold : IsBreak old)
    (hnew : IsBreak new)
    (hne : text ≠ [])
    (hvisible : EndsVisibly text)
    (hblanks : ∀ c ∈ blanks, isBlank c = true) :
    Relaid ending (old ++ (text ++ blanks)) (new ++ (indent text ++ '\n' :: ending)) := by
  induction hlength : text.length using Nat.strongRecOn generalizing old new text with
  | ind length ih =>
      have hspaces : ∀ c ∈ [' ', ' '], isBlank c = true := List.all_eq_true.1 rfl
      by_cases hmem : '\n' ∈ text
      · obtain ⟨line, rest, rfl, hline⟩ := List.eq_append_cons_of_mem hmem
        have hrest : rest ≠ [] := by
          rintro rfl
          exact absurd (hvisible '\n' (by simp)) (by decide)
        have hvisible' : EndsVisibly rest := by
          refine EndsVisibly.of_append (line ++ ['\n']) ?_ hrest
          simpa using hvisible
        obtain ⟨kept, hkept, hlines⟩ := exists_lines_append_lineFeed rest hline
        have hfeed : ∀ c ∈ ['\n'], isBlank c = true := List.all_eq_true.1 rfl
        have hbreak : ∀ gap : List Char, (∀ c ∈ gap, isBlank c = true) →
            IsBreak (gap ++ ['\n']) := by
          intro gap hgap
          exact ⟨List.forall_mem_append.2 ⟨hgap, hfeed⟩, by simp⟩
        have hreturn : isBlank '\r' = true := rfl
        rw [indent_of_lines hlines hrest, indentLine]
        by_cases hblank : kept.all isBlank = true
        · -- a blank line becomes a part of the blanks before it
          have hlineBlank : ∀ c ∈ line, isBlank c = true := by
            rw [List.all_eq_true] at hblank
            rcases hkept with rfl | rfl
            · exact hblank
            · exact List.forall_mem_append.2 ⟨hblank, by simpa using hreturn⟩
          have hnext := ih rest.length (by rw [← hlength]; simp; omega)
            (hold.append (hbreak line hlineBlank).blank) (hnew.append hfeed)
            hrest hvisible' rfl
          rw [if_pos hblank]
          simpa using hnext
        · -- a line with something on it stays, and its end begins the next blanks
          have hnext : ∀ back : List Char, (∀ c ∈ back, isBlank c = true) →
              Relaid ending (back ++ ['\n'] ++ (rest ++ blanks))
                (['\n'] ++ (indent rest ++ '\n' :: ending)) := fun back hback =>
            ih rest.length (by rw [← hlength]; simp; omega) (hbreak back hback)
              (hbreak [] (List.forall_mem_nil _)) hrest hvisible' rfl
          rw [if_neg hblank]
          rcases hkept with rfl | rfl
          · have hline := (hnext [] (List.forall_mem_nil _)).append_left line
            simpa using Relaid.gap hold (hnew.append hspaces) hline
          · have hline := (hnext ['\r'] (by simpa using hreturn)).append_left kept
            simpa using Relaid.gap hold (hnew.append hspaces) hline
      · have hall : text.all isBlank = false := by
          rw [Bool.eq_false_iff, Ne, List.all_eq_true]
          exact hvisible.not_all_blank hne
        rw [indent_of_single_line hmem hall]
        have hfinish : Relaid ending blanks ('\n' :: ending) := .finish hblanks
        have hline := hfinish.append_left text
        simpa using Relaid.gap hold (hnew.append hspaces) hline

/-- A text that is trimmed and indented between a line feed and an ending is laid out anew. -/
theorem relaid_trimmed
    (text ending : List Char) :
    Relaid ending ('\n' :: text) ('\n' :: (indent (trimEnd text) ++ '\n' :: ending)) := by
  obtain ⟨blanks, htext, hblanks⟩ := exists_eq_trimEnd_append text
  rw [List.all_eq_true] at hblanks
  have hbreak : IsBreak ['\n'] := ⟨List.all_eq_true.1 rfl, by simp⟩
  rcases eq_or_ne (trimEnd text) [] with hnil | hne
  · rw [hnil] at htext ⊢
    rw [htext]
    exact (Relaid.finish hblanks).keep '\n'
  · rw [htext]
    have htrimmed : trimEnd (trimEnd text ++ blanks) = trimEnd text := congrArg trimEnd htext.symm
    rw [htrimmed]
    exact relaid_indent ending hbreak hbreak hne (endsVisibly_trimEnd text) hblanks

end Text
end FeatureProbes
