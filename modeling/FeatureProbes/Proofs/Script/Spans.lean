import FeatureProbes.Proofs.Script.Lexemes
import FeatureProbes.Proofs.Script.Reading
import FeatureProbes.Proofs.Script.Renaming
import Mathlib.Data.List.Flatten

/-!
# Where identifiers stand

An identifier stands in a text where a word of the text spells its name.  Those of a tree are taken in
the order of the text; they stand one after the other there, and so do those that are left when some
are dropped.  A token stands in a text together with what is still to be read, and going
on to the next token keeps it so unless a lexical fault is met.
-/

namespace FeatureProbes
namespace Script

/-! ## Identifiers in a text -/

/-- An identifier stands in a text: between its offsets is a word that spells its name. -/
def Ident.SpelledIn
    (text : List Char)
    (id : Ident) : Prop :=
  ∃ front word rest, text = front ++ (word ++ rest) ∧ id.start = front.length ∧
    id.stop = front.length + word.length ∧ Spells word id.name rest

/-- Identifiers stand in a text one after the other, between two offsets. -/
def Ascending (text : List Char) : Nat → List Ident → Nat → Prop
  | low, [], high => low ≤ high
  | low, id :: more, high =>
      low ≤ id.start ∧ id.SpelledIn text ∧ Ascending text id.stop more high

section Ascending

variable {text : List Char} {low middle high : Nat} {id : Ident} {ids first second : List Ident}

theorem Ident.SpelledIn.start_le_stop
    (h : id.SpelledIn text) :
    id.start ≤ id.stop := by
  obtain ⟨front, word, rest, -, hstart, hstop, -⟩ := h
  omega

theorem ascending_append_iff :
    Ascending text low (first ++ second) high ↔
      ∃ middle, Ascending text low first middle ∧ Ascending text middle second high := by
  induction first generalizing low with
  | nil =>
      constructor
      · intro h
        exact ⟨low, Nat.le_refl low, h⟩
      · rintro ⟨middle, hle, h⟩
        cases second with
        | nil =>
            exact Nat.le_trans hle h
        | cons id second =>
            exact ⟨Nat.le_trans hle h.1, h.2⟩
  | cons id first ih =>
      simp only [List.cons_append, Ascending, ih]
      constructor
      · rintro ⟨hlow, hid, middle, hfirst, hsecond⟩
        exact ⟨middle, ⟨hlow, hid, hfirst⟩, hsecond⟩
      · rintro ⟨middle, ⟨hlow, hid, hfirst⟩, hsecond⟩
        exact ⟨hlow, hid, middle, hfirst, hsecond⟩

theorem Ascending.mono
    (h : Ascending text low ids middle)
    (hle : middle ≤ high) :
    Ascending text low ids high := by
  have hnone : Ascending text middle [] high := hle
  have hall := ascending_append_iff.2 ⟨middle, h, hnone⟩
  rwa [List.append_nil] at hall

theorem Ascending.mono_low
    (h : Ascending text middle ids high)
    (hle : low ≤ middle) :
    Ascending text low ids high := by
  have hnone : Ascending text low [] middle := hle
  exact ascending_append_iff.2 ⟨middle, hnone, h⟩

/-- Some of the identifiers stand one after the other, too. -/
theorem Ascending.sublist
    (h : Ascending text low ids high)
    (hsub : first.Sublist ids) :
    Ascending text low first high := by
  induction hsub generalizing low with
  | slnil =>
      exact h
  | cons id _ ih =>
      have hle := Nat.le_trans h.1 h.2.1.start_le_stop
      exact ih (h.2.2.mono_low hle)
  | cons_cons id _ ih =>
      exact ⟨h.1, h.2.1, ih h.2.2⟩

end Ascending

namespace Tree

/-- The identifiers of a tree, in the order of the text. -/
def idents (tree : Tree) : List Ident :=
  tree.places.map Place.ident

/-- The identifiers of several trees. -/
def identsOf (trees : List Tree) : List Ident :=
  trees.flatMap idents

@[simp] theorem idents_reference
    (id : Ident) :
    idents (.reference id) = [id] := by
  simp [idents, places]

@[simp] theorem idents_binding
    (id : Ident) :
    idents (.binding id) = [id] := by
  simp [idents, places]

@[simp] theorem idents_leaf
    (text : String) :
    idents (.leaf text) = [] := by
  simp [idents, places]

@[simp] theorem identsOf_nil : identsOf [] = [] := rfl

@[simp] theorem identsOf_cons
    (tree : Tree)
    (trees : List Tree) :
    identsOf (tree :: trees) = tree.idents ++ identsOf trees := rfl

@[simp] theorem identsOf_append
    (first second : List Tree) :
    identsOf (first ++ second) = identsOf first ++ identsOf second :=
  List.flatMap_append

theorem map_ident_placesOfParts
    (parts : List Tree) :
    (placesOfParts parts).map Place.ident = identsOf parts := by
  induction parts with
  | nil =>
      simp [placesOfParts]
  | cons tree parts ih =>
      rw [placesOfParts, List.map_append, ih, identsOf_cons, idents]

/-- The identifiers of a node are those of its parts, whatever its form. -/
@[simp] theorem idents_node
    (form : Form)
    (parts : List Tree) :
    idents (.node form parts) = identsOf parts := by
  rw [← map_ident_placesOfParts, idents]
  unfold places
  split <;> simp_all [placesOfParts, places]

theorem identsOf_parts_sublist
    (tree : Tree) :
    (identsOf tree.parts).Sublist tree.idents := by
  cases tree <;> simp [parts]

theorem identsOf_sublist
    {first second : List Tree}
    (h : first.Sublist second) :
    (identsOf first).Sublist (identsOf second) :=
  List.Sublist.flatMap h _

end Tree

/-! ## Tokens in a text -/

/-- A token stands in a text in front of the given rest.  If it is a word it spells its name, and if
it is a punctuator it is its own text. -/
structure Token.StandsAs
    (text front spelling : List Char)
    (token : Token)
    (rest : List Char) : Prop where
  text_eq : text = front ++ (spelling ++ rest)
  start_eq : token.start = front.length
  stop_eq : token.stop = front.length + spelling.length
  word : token.kind = .word → Spells spelling token.text rest
  punctuator : token.kind = .punctuator → token.text.toList = spelling

/-- The token at hand stands in a text, in front of what is to be read. -/
def State.StandsIn (text : List Char) (s : State) : Prop :=
  ∃ front spelling, s.token.StandsAs text front spelling s.rest

/-- The identifier that a word would be. -/
def Token.ident (token : Token) : Ident :=
  ⟨token.text, token.start, token.stop⟩

section StandsIn

variable {text : List Char} {s : State}

theorem State.StandsIn.start_le_stop
    (h : s.StandsIn text) :
    s.token.start ≤ s.token.stop := by
  obtain ⟨front, spelling, h⟩ := h
  rw [h.start_eq, h.stop_eq]
  exact Nat.le_add_right _ _

/-- A word stands where its identifier says. -/
theorem State.StandsIn.spelledIn
    (h : s.StandsIn text)
    (hword : s.token.kind = .word) :
    s.token.ident.SpelledIn text := by
  obtain ⟨front, spelling, h⟩ := h
  exact ⟨front, spelling, s.rest, h.text_eq, h.start_eq, h.stop_eq, h.word hword⟩

/-- What is scanned without a fault stands in the text. -/
theorem standsAs_scanToken
    {front rest : List Char} {offset : Nat}
    (atLineStart : Bool)
    (htext : text = front ++ rest)
    (hoffset : offset = front.length)
    (hfaults : (scanToken offset atLineStart rest).2.2 = []) :
    offset ≤ (scanToken offset atLineStart rest).1.start ∧
      ∃ before spelling, (scanToken offset atLineStart rest).1.StandsAs text before spelling
        (scanToken offset atLineStart rest).2.1 := by
  obtain ⟨skipped, hskipped, hcount⟩ := exists_eq_append_skipTrivia .between atLineStart 0 rest
  have hfits := fits_readLexeme (skipTrivia .between 0 atLineStart rest).rest
  have hclean : (readLexeme (skipTrivia .between 0 atLineStart rest).rest).faults = [] :=
    (List.append_eq_nil_iff.1 hfaults).2
  rw [Nat.zero_add] at hcount
  refine ⟨Nat.le_add_right _ _, front ++ skipped, _, ?_, ?_, ?_,
    fun hword => hfits.word hword hclean, hfits.punctuator⟩
  · rw [htext, List.append_assoc]
    refine congrArg (front ++ ·) (hskipped.trans ?_)
    exact congrArg (skipped ++ ·) hfits.takes.symm
  · rw [List.length_append, ← hoffset, ← hcount]
    rfl
  · rw [List.length_append, ← hoffset, ← hcount]
    rfl

theorem State.StandsIn.next
    (h : s.StandsIn text)
    (hlexical : s.next.lexical = []) :
    s.next.StandsIn text ∧ s.token.stop ≤ s.next.token.start := by
  obtain ⟨front, spelling, h⟩ := h
  have hfaults := (List.append_eq_nil_iff.1 hlexical).2
  have htext : text = (front ++ spelling) ++ s.rest := by
    rw [List.append_assoc]
    exact h.text_eq
  have hoffset : s.token.stop = (front ++ spelling).length := by
    rw [List.length_append]
    exact h.stop_eq
  obtain ⟨hle, hstands⟩ := standsAs_scanToken false htext hoffset hfaults
  exact ⟨hstands, hle⟩

/-- The first token stands in the text if nothing is wrong with it. -/
theorem standsIn_initial
    (hlexical : (State.initial text).lexical = []) :
    (State.initial text).StandsIn text := by
  have hhash : ∃ front, text = front ++ (afterHashMark text).rest ∧
      (afterHashMark text).count = front.length := by
    unfold afterHashMark
    split
    · rename_i rest
      obtain ⟨skipped, hskipped, hcount⟩ := exists_eq_append_skipTrivia .line true 2 rest
      refine ⟨'#' :: '!' :: skipped, ?_, ?_⟩
      · rw [List.cons_append, List.cons_append, ← hskipped]
      · rw [hcount, List.length_cons, List.length_cons, Nat.add_comm 2]
    · exact ⟨[], rfl, rfl⟩
  obtain ⟨front, htext, hcount⟩ := hhash
  have hfaults := (List.append_eq_nil_iff.1 hlexical).2
  exact (standsAs_scanToken true htext hcount hfaults).2

end StandsIn

end Script
end FeatureProbes
