import FeatureProbes.Proofs.Text.Layout
import FeatureProbes.Script.Lexeme

/-!
# How far a lexeme reaches

The reader of a lexeme looks at the characters after it only to see that they do not belong to it.
What does not belong to it may give way to anything else that begins alike: the reader takes the
same characters and makes the same of them.  The last of the characters can always be seen.
-/

namespace FeatureProbes
namespace Script

open Text

/-! ## Blanks are in no class of characters -/

/-- The blank characters, one by one. -/
def blanks : List Char :=
  (List.range' 9 5 ++ [0x20, 0x85, 0xA0, 0x1680] ++ List.range' 0x2000 11 ++
    [0x2028, 0x2029, 0x202F, 0x205F, 0x3000]).map Char.ofNat

theorem mem_blanks
    {c : Char}
    (h : isBlank c = true) :
    c ∈ blanks := by
  refine List.mem_map.2 ⟨c.toNat, ?_, Char.ofNat_toNat c⟩
  simp only [isBlank, Bool.or_eq_true, Bool.and_eq_true, decide_eq_true_eq, beq_iff_eq] at h
  simp only [List.mem_append, List.mem_range'_1, List.mem_cons, List.not_mem_nil]
  omega

/-- To see that a class has no blanks it is enough to go through them. -/
theorem eq_false_of_isBlank
    {p : Char → Bool}
    (hp : (blanks.all fun d => !p d) = true)
    (c : Char)
    (h : isBlank c = true) :
    p c = false := by
  have hc := List.all_eq_true.1 hp c (mem_blanks h)
  simpa using hc

theorem isNameStart_of_isBlank : ∀ c, isBlank c = true → isNameStart c = false :=
  eq_false_of_isBlank (by decide +kernel)

theorem isNamePart_of_isBlank : ∀ c, isBlank c = true → isNamePart c = false :=
  eq_false_of_isBlank (by decide +kernel)

theorem isDigit_of_isBlank : ∀ c, isBlank c = true → c.isDigit = false :=
  eq_false_of_isBlank (by decide)

/-- A member of a class without blanks can be seen. -/
theorem isBlank_eq_false
    {c : Char} {p : Char → Bool}
    (hp : ∀ c, isBlank c = true → p c = false)
    (hc : p c = true) :
    isBlank c = false := by
  rw [Bool.eq_false_iff]
  intro hblank
  rw [hp c hblank] at hc
  cases hc

theorem exists_cons_of_any_head?
    {text : List Char} {p : Char → Bool}
    (h : text.head?.any p = true) :
    ∃ c rest, text = c :: rest ∧ p c = true := by
  obtain ⟨c, hhead, hc⟩ := (Option.any_eq_true _ _).1 h
  obtain ⟨rest, htext⟩ := List.head?_eq_some_iff.1 hhead
  exact ⟨c, rest, htext, hc⟩

/-! ## Readings -/

/-- What a reader gives: the characters that it took and the text after them. -/
class Reading (ρ : Type) where
  spelling : ρ → List Char
  rest : ρ → List Char
  /-- Nothing is wrong with the characters. -/
  Fine : ρ → Prop
  /-- The same characters in front of another text. -/
  before : ρ → List Char → ρ
  before_rest : ∀ read, before read (rest read) = read

instance : Reading NameRead where
  spelling := NameRead.spelling
  rest := NameRead.rest
  Fine read := read.fault = none
  before read other := { read with rest := other }
  before_rest _ := rfl

instance : Reading Taken where
  spelling := Taken.spelling
  rest := Taken.rest
  Fine taken := taken.fault = none
  before taken other := { taken with rest := other }
  before_rest _ := rfl

instance : Reading TextRead where
  spelling := TextRead.spelling
  rest := TextRead.rest
  Fine read := read.ending ≠ .unterminated
  before read other := { read with rest := other }
  before_rest _ := rfl

instance : Reading Lexeme where
  spelling := Lexeme.spelling
  rest := Lexeme.rest
  Fine lexeme := lexeme.faults = []
  before lexeme other := { lexeme with rest := other }
  before_rest _ := rfl

open Reading

section Settled

variable {ρ σ : Type} [Reading ρ] [Reading σ] {read : List Char → ρ} {c : Char}
  {front text : List Char}

/-- In front of whatever begins like the text that it left, a reader takes the same characters and
makes the same of them.  Those that are put in front of what it takes are given, too. -/
def Settled (read : List Char → ρ) (front text : List Char) : Prop :=
  Fine (read text) → ∀ other, SameFront (rest (read text)) other →
    ∃ more, text = more ++ rest (read text) ∧ spelling (read text) = front ++ more ∧
      EndsVisibly more ∧ read (more ++ other) = before (read text) other

theorem Settled.of_not_fine
    (h : ¬Fine (read text)) :
    Settled read front text :=
  fun hfine => absurd hfine h

/-- Nothing more is taken, and neither in front of whatever begins alike. -/
theorem Settled.stop
    (hspelling : spelling (read text) = front)
    (hrest : rest (read text) = text)
    (hread : ∀ other, SameFront text other → read other = before (read text) other) :
    Settled read front text := by
  intro _ other hother
  rw [hrest] at hother ⊢
  exact ⟨[], rfl, by rw [hspelling, List.append_nil], nofun, hread other hother⟩

/-- Two readers agree on the text and on whatever begins like it. -/
theorem Settled.congr
    {read' : List Char → ρ}
    (h : Settled read front text)
    (hread : ∀ other, SameFront text other → read' other = read other) :
    Settled read' front text := by
  have hsame := hread text (.refl text)
  intro hfine other hother
  rw [hsame] at hfine hother ⊢
  obtain ⟨more, htext, hspelling, hvisible, hmore⟩ := h hfine other hother
  refine ⟨more, htext, hspelling, hvisible, (hread _ ?_).trans hmore⟩
  have happend := hother.append more
  rwa [← htext] at happend

/-- The first character is taken for certain. -/
theorem Settled.head
    {g : List Char → ρ}
    (h : Settled g (front ++ [c]) text)
    (hread : ∀ other, SameFront text other → read (c :: other) = g other)
    (hc : isBlank c = false ∨ spelling (g text) ≠ front ++ [c]) :
    Settled read front (c :: text) := by
  have hsame := hread text (.refl text)
  intro hfine other hother
  rw [hsame] at hfine hother ⊢
  obtain ⟨more, htext, hspelling, hvisible, hmore⟩ := h hfine other hother
  refine ⟨c :: more, congrArg (c :: ·) htext, by simpa using hspelling, ?_, ?_⟩
  · intro d hd
    rcases more with _ | ⟨e, more⟩
    · rw [List.append_nil] at hspelling
      cases hd
      exact hc.resolve_right (· hspelling)
    · exact hvisible d (by rwa [List.getLast?_cons_cons] at hd)
  · have happend := hother.append more
    rw [← htext] at happend
    exact (hread _ happend).trans hmore

/-- A reader that only looks at what another reader gives.  It may put some characters in front. -/
theorem Settled.lift
    {read' : List Char → σ}
    (h : Settled read front text)
    (pre : List Char)
    (hfine : Fine (read' text) → Fine (read text))
    (hspelling : spelling (read' text) = pre ++ spelling (read text))
    (hrest : rest (read' text) = rest (read text))
    (hread : ∀ whole other, read whole = before (read text) other →
      read' whole = before (read' text) other) :
    Settled read' (pre ++ front) text := by
  intro hf other hother
  rw [hrest] at hother ⊢
  obtain ⟨more, htext, hmore, hvisible, hwhole⟩ := h (hfine hf) other hother
  refine ⟨more, htext, ?_, hvisible, hread _ _ hwhole⟩
  rw [hspelling, hmore, List.append_assoc]

/-- More is made of the characters, and some may be put in front of them. -/
theorem Settled.map
    {f : ρ → σ}
    (h : Settled read front text)
    (pre : List Char)
    (hfine : Fine (f (read text)) → Fine (read text))
    (hspelling : spelling (f (read text)) = pre ++ spelling (read text))
    (hrest : rest (f (read text)) = rest (read text))
    (hbefore : ∀ other, f (before (read text) other) = before (f (read text)) other) :
    Settled (fun text => f (read text)) (pre ++ front) text :=
  h.lift pre hfine hspelling hrest fun _ other hwhole => (congrArg f hwhole).trans (hbefore other)

/-- The first character is taken for certain, and the next reader begins behind it. -/
theorem Settled.put
    {g : List Char → ρ} {f : ρ → ρ}
    (h : Settled g [] text)
    (hread : ∀ other, SameFront text other → read (c :: other) = f (g other))
    (hfine : Fine (f (g text)) → Fine (g text))
    (hspelling : spelling (f (g text)) = c :: spelling (g text))
    (hrest : rest (f (g text)) = rest (g text))
    (hbefore : ∀ other, f (before (g text) other) = before (f (g text)) other)
    (hc : isBlank c = false ∨ spelling (g text) ≠ []) :
    Settled read [] (c :: text) := by
  have hmap : Settled (fun text => f (g text)) ([] ++ [c]) text :=
    h.map [c] hfine hspelling hrest hbefore
  refine hmap.head hread ?_
  rw [hspelling]
  simpa using hc

/-- Reading goes on where a first reader stopped. -/
theorem Settled.bind
    {g : ρ → σ}
    (h : Settled read front text)
    (pre : List Char)
    (hfine : Fine (g (read text)) → Fine (read text))
    (hg : Settled (fun other => g (before (read text) other)) (pre ++ spelling (read text))
      (rest (read text))) :
    Settled (fun text => g (read text)) (pre ++ front) text := by
  intro hf other hother
  unfold Settled at hg
  simp only [before_rest] at hg
  obtain ⟨second, hsecond, hspelling, hvisible, hread⟩ := hg hf other hother
  have hsame : SameFront (rest (read text)) (second ++ other) := by
    have happend := hother.append second
    rwa [← hsecond] at happend
  obtain ⟨first, htext, hfirst, hvisible', hread'⟩ := h (hfine hf) _ hsame
  refine ⟨first ++ second, ?_, ?_, hvisible'.append hvisible, ?_⟩
  · rw [List.append_assoc, ← hsecond]
    exact htext
  · rw [hspelling, hfirst, List.append_assoc, List.append_assoc, List.append_assoc]
  · rw [List.append_assoc]
    exact (congrArg g hread').trans hread

end Settled

end Script
end FeatureProbes
