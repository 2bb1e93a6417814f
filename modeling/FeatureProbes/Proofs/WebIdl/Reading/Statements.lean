import FeatureProbes.Proofs.WebIdl.Reading.Layout

/-!
# Statements of a text

Definitions and members are statements: each goes up to a semicolon that no further brackets
enclose.  So they can be told apart without being read: it is enough to count brackets.  In the same
way the extended attributes in front of a statement end with the bracket that closes the first one,
and the members of a definition are the statements in its braces.

A row of tokens is balanced if its brackets match.  Balanced rows are put together from smaller ones,
and the number of brackets around a token behind such a row does not depend on it.
-/

namespace FeatureProbes
namespace WebIdl

/-! ## Brackets -/

namespace Token

def opens (token : Token) : Bool :=
  token.kind == .mark && ["(", "[", "\x7b"].contains token.text

def closes (token : Token) : Bool :=
  token.kind == .mark && [")", "]", "\x7d"].contains token.text

end Token

/-- A token of a text with the number of brackets around it. -/
structure Enclosed where
  depth : Nat
  placed : Placed

namespace Enclosed

def isMark (item : Enclosed) (mark : String) : Bool :=
  item.placed.token.isMark mark

/-- Whether the token is this mark and is in just so many brackets. -/
def isMarkAt (item : Enclosed) (depth : Nat) (mark : String) : Bool :=
  item.depth == depth && item.isMark mark

/-- Whether the token is in more brackets. -/
def isDeeper (item : Enclosed) (depth : Nat) : Bool :=
  decide (depth < item.depth)

end Enclosed

/-- The number of open brackets behind a token. -/
def depthBehind (depth : Nat) (token : Token) : Nat :=
  if token.opens then depth + 1 else if token.closes then depth - 1 else depth

/-- Tokens with the number of brackets around them; a bracket does not enclose itself. -/
def enclosed : Nat → List Placed → List Enclosed
  | _, [] => []
  | depth, placed :: more =>
      ⟨min depth (depthBehind depth placed.token), placed⟩ ::
        enclosed (depthBehind depth placed.token) more

/-! ## Statements -/

/-- The rows of tokens that end with a semicolon in so many brackets.  Tokens behind the last such
semicolon are no statement. -/
def statementsAt (depth : Nat) : List Enclosed → List (List Enclosed)
  | [] => []
  | item :: more =>
      if item.isMarkAt depth ";" then [item] :: statementsAt depth more
      else
        match statementsAt depth more with
        | [] => []
        | row :: rows => (item :: row) :: rows

/-- A statement behind its extended attributes, which go from a bracket at its start to the one that
closes it. -/
def bodyOf (depth : Nat) : List Enclosed → List Enclosed
  | [] => []
  | item :: more =>
      if item.isMark "[" then (more.dropWhile (Enclosed.isDeeper · depth)).tail
      else item :: more

/-- What stands in the braces of a statement. -/
def blockOf (depth : Nat) (row : List Enclosed) : List Enclosed :=
  (row.dropWhile fun item => !item.isMarkAt depth "\x7b").tail.takeWhile (Enclosed.isDeeper · depth)

/-! ## Balanced rows -/

/-- The number of open brackets behind a row of tokens. -/
def depthAfter (depth : Nat) (row : List Placed) : Nat :=
  row.foldl (fun depth placed => depthBehind depth placed.token) depth

/-- The brackets of a row match, and some marks stand in brackets only. -/
structure Balanced (inside : List String) (row : List Placed) : Prop where
  depthAfter_eq : ∀ depth, depthAfter depth row = depth
  within : ∀ depth, ∀ item ∈ enclosed depth row,
    depth ≤ item.depth ∧ ∀ mark ∈ inside, item.isMarkAt depth mark = false

section Balanced

variable {inside : List String} {row more : List Placed} {placed : Placed}

theorem enclosed_append
    (depth : Nat)
    (row more : List Placed) :
    enclosed depth (row ++ more) = enclosed depth row ++ enclosed (depthAfter depth row) more := by
  induction row generalizing depth with
  | nil =>
      rfl
  | cons placed row ih =>
      rw [List.cons_append, enclosed, enclosed, ih, List.cons_append]
      rfl

theorem balanced_nil :
    Balanced inside [] :=
  ⟨fun _ => rfl, fun _ _ h => nomatch h⟩

theorem Balanced.append
    (h : Balanced inside row)
    (hmore : Balanced inside more) :
    Balanced inside (row ++ more) := by
  refine ⟨fun depth => ?_, fun depth item hitem => ?_⟩
  · rw [depthAfter, List.foldl_append]
    exact (congrArg (depthAfter · more) (h.depthAfter_eq depth)).trans (hmore.depthAfter_eq depth)
  · rw [enclosed_append, h.depthAfter_eq, List.mem_append] at hitem
    exact hitem.elim (h.within depth item) (hmore.within depth item)

theorem Balanced.mono
    {fewer : List String}
    (h : Balanced inside row)
    (hfewer : fewer ⊆ inside) :
    Balanced fewer row :=
  ⟨h.depthAfter_eq, fun depth item hitem =>
    ⟨(h.within depth item hitem).1, fun mark hmark =>
      (h.within depth item hitem).2 mark (hfewer hmark)⟩⟩

theorem isMarkAt_eq_false
    {mark : String}
    (h : placed.token.isMark mark = false)
    (depth depth' : Nat) :
    (Enclosed.mk depth placed).isMarkAt depth' mark = false := by
  rw [Enclosed.isMarkAt, Enclosed.isMark, h, Bool.and_false]

theorem isMarkAt_eq_true
    {mark : String}
    (h : placed.token.isMark mark = true)
    (depth : Nat) :
    (Enclosed.mk depth placed).isMarkAt depth mark = true := by
  rw [Enclosed.isMarkAt, Enclosed.isMark, h, beq_self_eq_true, Bool.and_true]

/-- The marks that open brackets or close them. -/
def brackets : List String :=
  ["(", "[", "\x7b", ")", "]", "\x7d"]

theorem balanced_single
    (hplain : ∀ mark ∈ brackets ++ inside, placed.token.isMark mark = false) :
    Balanced inside [placed] := by
  have hnone : ∀ marks : List String, marks ⊆ brackets →
      (placed.token.kind == .mark && marks.contains placed.token.text) = false := by
    intro marks hmarks
    rw [Bool.eq_false_iff]
    intro h
    rw [Bool.and_eq_true, List.contains_iff_mem] at h
    have hmark := hplain placed.token.text (List.mem_append_left _ (hmarks h.2))
    rw [Token.isMark, h.1, beq_self_eq_true] at hmark
    cases hmark
  have hdepth : ∀ depth, depthBehind depth placed.token = depth := by
    intro depth
    rw [depthBehind, Token.opens, Token.closes, hnone _ (by decide), hnone _ (by decide)]
    rfl
  refine ⟨hdepth, fun depth item hitem => ?_⟩
  rw [enclosed, hdepth, Nat.min_self, enclosed, List.mem_singleton] at hitem
  subst hitem
  exact ⟨Nat.le_refl _, fun mark hmark =>
    isMarkAt_eq_false (hplain mark (List.mem_append_right _ hmark)) depth depth⟩

theorem Token.isMark_eq
    {token : Token} {mark : String}
    (h : token.isMark mark = true)
    (other : String) :
    token.isMark other = (mark == other) := by
  rw [Token.isMark, Bool.and_eq_true, beq_iff_eq, beq_iff_eq] at h
  rw [Token.isMark, h.1, h.2, beq_self_eq_true, Bool.true_and]

theorem balanced_mark
    {mark : String}
    (h : placed.token.isMark mark = true)
    (hmark : mark ∉ brackets ++ inside) :
    Balanced inside [placed] := by
  refine balanced_single fun other hother => ?_
  rw [Token.isMark_eq h, beq_eq_false_iff_ne]
  exact (ne_of_mem_of_not_mem hother hmark).symm

theorem balanced_of_kind
    (h : placed.token.kind ≠ .mark) :
    Balanced inside [placed] := by
  refine balanced_single fun other _ => ?_
  rw [Token.isMark, beq_eq_false_iff_ne.2 h, Bool.false_and]

/-! ## Rows in brackets -/

/-- Marks that enclose a row. -/
structure Encloses (opening closing : Placed) : Prop where
  opens : opening.token.opens = true
  closes : closing.token.closes = true
  /-- What closes brackets opens none. -/
  opens_closing : closing.token.opens = false

theorem encloses_of_isMark
    {opening closing : Placed} {mark mark' : String}
    (h : opening.token.isMark mark = true)
    (h' : closing.token.isMark mark' = true)
    (hmark : ["(", "[", "\x7b"].contains mark = true)
    (hmark' : [")", "]", "\x7d"].contains mark' = true) :
    Encloses opening closing := by
  rw [Token.isMark, Bool.and_eq_true, beq_iff_eq, beq_iff_eq] at h h'
  refine ⟨?_, ?_, ?_⟩
  · rw [Token.opens, h.1, h.2, beq_self_eq_true, hmark]
    rfl
  · rw [Token.closes, h'.1, h'.2, beq_self_eq_true, hmark']
    rfl
  · rw [Token.opens, h'.2, Bool.and_eq_false_iff]
    right
    simp only [List.contains_cons, List.contains_nil, Bool.or_false, Bool.or_eq_true,
      beq_iff_eq] at hmark'
    rcases hmark' with rfl | rfl | rfl <;> rfl

variable {opening closing : Placed} {inner : List Placed}

/-- A row in brackets is one deeper than the brackets. -/
theorem Encloses.enclosed_eq
    (h : Encloses opening closing)
    {marks : List String}
    (hinner : Balanced marks inner)
    (depth : Nat)
    (more : List Placed) :
    enclosed depth (opening :: (inner ++ closing :: more)) =
      ⟨depth, opening⟩ :: (enclosed (depth + 1) inner ++ ⟨depth, closing⟩ :: enclosed depth more) := by
  have hopening : depthBehind depth opening.token = depth + 1 := by
    rw [depthBehind, h.opens, if_pos rfl]
  have hclosing : depthBehind (depth + 1) closing.token = depth := by
    rw [depthBehind, h.opens_closing, h.closes, if_neg Bool.false_ne_true, if_pos rfl]
    rfl
  rw [enclosed, hopening, enclosed_append, hinner.depthAfter_eq, enclosed, hclosing,
    Nat.min_eq_left (Nat.le_succ depth), Nat.min_eq_right (Nat.le_succ depth)]

theorem Encloses.depthAfter_eq
    (h : Encloses opening closing)
    {marks : List String}
    (hinner : Balanced marks inner)
    (depth : Nat) :
    depthAfter depth (opening :: (inner ++ [closing])) = depth := by
  have hall : depthAfter depth (opening :: (inner ++ [closing])) =
      depthBehind (depthAfter (depthBehind depth opening.token) inner) closing.token := by
    rw [depthAfter, List.foldl_cons, List.foldl_append]
    rfl
  rw [hall, hinner.depthAfter_eq, depthBehind, depthBehind, h.opens, h.opens_closing, h.closes]
  rfl

theorem Encloses.balanced
    (h : Encloses opening closing)
    {marks : List String}
    (hinner : Balanced marks inner)
    (hopening : ∀ mark ∈ inside, opening.token.isMark mark = false)
    (hclosing : ∀ mark ∈ inside, closing.token.isMark mark = false) :
    Balanced inside (opening :: (inner ++ [closing])) := by
  refine ⟨h.depthAfter_eq hinner, fun depth item hitem => ?_⟩
  rw [h.enclosed_eq hinner, enclosed, List.mem_cons, List.mem_append, List.mem_singleton] at hitem
  rcases hitem with rfl | hitem | rfl
  · exact ⟨Nat.le_refl _, fun mark hmark => isMarkAt_eq_false (hopening mark hmark) depth depth⟩
  · have hdepth := (hinner.within (depth + 1) item hitem).1
    refine ⟨by omega, fun mark _ => ?_⟩
    rw [Enclosed.isMarkAt, beq_eq_false_iff_ne.2 (by omega), Bool.false_and]
  · exact ⟨Nat.le_refl _, fun mark hmark => isMarkAt_eq_false (hclosing mark hmark) depth depth⟩

end Balanced

/-! ## Rows that end with a semicolon -/

section Statements

variable {depth : Nat} {row more : List Placed} {last : Placed}

theorem statementsAt_of_none
    {items : List Enclosed}
    (h : ∀ item ∈ items, item.isMarkAt depth ";" = false) :
    statementsAt depth items = [] := by
  induction items with
  | nil =>
      rfl
  | cons item items ih =>
      rw [List.forall_mem_cons] at h
      rw [statementsAt, h.1, ih h.2]
      rfl

theorem statementsAt_append
    {items others : List Enclosed} {item : Enclosed}
    (h : ∀ item ∈ items, item.isMarkAt depth ";" = false)
    (hitem : item.isMarkAt depth ";" = true) :
    statementsAt depth (items ++ item :: others) =
      (items ++ [item]) :: statementsAt depth others := by
  induction items with
  | nil =>
      rw [List.nil_append, statementsAt, hitem]
      rfl
  | cons first items ih =>
      rw [List.forall_mem_cons] at h
      rw [List.cons_append, statementsAt, h.1, ih h.2]
      rfl

/-- A balanced row and a semicolon are the first statement. -/
theorem Balanced.statementsAt_eq
    (h : Balanced [";"] row)
    (hlast : last.token.isMark ";" = true)
    (depth : Nat)
    (more : List Placed) :
    statementsAt depth (enclosed depth (row ++ last :: more)) =
      enclosed depth (row ++ [last]) :: statementsAt depth (enclosed depth more) := by
  have hmark : Balanced [] [last] := balanced_mark hlast (by decide)
  have hsingle : depthBehind depth last.token = depth := hmark.depthAfter_eq depth
  have hnone : ∀ item ∈ enclosed depth row, item.isMarkAt depth ";" = false :=
    fun item hitem => (h.within depth item hitem).2 ";" List.mem_cons_self
  rw [enclosed_append, enclosed_append, h.depthAfter_eq, enclosed, enclosed, hsingle, Nat.min_self,
    statementsAt_append hnone (isMarkAt_eq_true hlast depth)]
  rfl

end Statements

/-! ## Extended attributes and braces -/

/-- Extended attributes in brackets, or none. -/
inductive IsAttributeRow : List Placed → Prop
  | nil :
      IsAttributeRow []
  | brackets
      {opening closing : Placed} {inner : List Placed}
      (hopening : opening.token.isMark "[" = true)
      (hinner : Balanced [] inner)
      (hclosing : closing.token.isMark "]" = true) :
      IsAttributeRow (opening :: (inner ++ [closing]))

section Parts

variable {depth : Nat} {front inner body more : List Placed} {opening closing : Placed}

/-- The tokens in brackets are the ones that are deeper than the brackets. -/
theorem dropWhile_isDeeper
    {marks : List String}
    (hinner : Balanced marks inner)
    (depth : Nat)
    (closing : Placed)
    (others : List Enclosed) :
    (enclosed (depth + 1) inner ++ ⟨depth, closing⟩ :: others).dropWhile
        (Enclosed.isDeeper · depth) = ⟨depth, closing⟩ :: others ∧
      (enclosed (depth + 1) inner ++ ⟨depth, closing⟩ :: others).takeWhile
        (Enclosed.isDeeper · depth) = enclosed (depth + 1) inner := by
  have hall : ∀ item ∈ enclosed (depth + 1) inner, item.isDeeper depth = true :=
    fun item hitem => decide_eq_true (hinner.within (depth + 1) item hitem).1
  have hstop : ¬(Enclosed.mk depth closing).isDeeper depth = true := by
    rw [Enclosed.isDeeper, decide_eq_true_eq]
    exact Nat.lt_irrefl depth
  rw [List.dropWhile_append_of_pos hall, List.takeWhile_append_of_pos hall,
    List.dropWhile_cons_of_neg (p := (Enclosed.isDeeper · depth)) hstop,
    List.takeWhile_cons_of_neg (p := (Enclosed.isDeeper · depth)) hstop, List.append_nil]
  exact ⟨rfl, rfl⟩

theorem IsAttributeRow.balanced
    (h : IsAttributeRow front) :
    Balanced [";", "\x7b"] front := by
  cases h with
  | nil =>
      exact balanced_nil
  | brackets hopening hinner hclosing =>
      refine (encloses_of_isMark hopening hclosing rfl rfl).balanced hinner ?_ ?_
      · intro mark hmark
        rw [Token.isMark_eq hopening]
        revert mark
        decide
      · intro mark hmark
        rw [Token.isMark_eq hclosing]
        revert mark
        decide

/-- Behind its extended attributes a statement has its body. -/
theorem IsAttributeRow.bodyOf_eq
    (h : IsAttributeRow front)
    (hbody : front = [] → ∀ first ∈ body.head?, first.token.isMark "[" = false)
    (depth : Nat) :
    bodyOf depth (enclosed depth (front ++ body)) = enclosed depth body := by
  cases h with
  | nil =>
      cases body with
      | nil =>
          rfl
      | cons first body =>
          have hfirst : (Enclosed.mk (min depth (depthBehind depth first.token)) first).isMark "[" =
              false := hbody rfl first rfl
          rw [List.nil_append, enclosed, bodyOf, if_neg (by rw [hfirst]; exact Bool.false_ne_true)]
  | brackets hopening hinner hclosing =>
      have hencloses := encloses_of_isMark hopening hclosing rfl rfl
      rw [List.cons_append, List.append_assoc, List.singleton_append,
        hencloses.enclosed_eq hinner, bodyOf, if_pos (by exact hopening),
        (dropWhile_isDeeper hinner depth _ _).1]
      rfl

theorem Balanced.blockOf_eq_nil
    (h : Balanced ["\x7b"] front)
    (depth : Nat) :
    blockOf depth (enclosed depth front) = [] := by
  have hnone : ∀ item ∈ enclosed depth front, (!item.isMarkAt depth "\x7b") = true := by
    intro item hitem
    rw [(h.within depth item hitem).2 _ List.mem_cons_self]
    rfl
  rw [blockOf, ← List.append_nil (enclosed depth front), List.dropWhile_append_of_pos hnone]
  rfl

/-- What stands in braces behind a row without braces. -/
theorem Balanced.blockOf_eq
    (h : Balanced ["\x7b"] front)
    (hopening : opening.token.isMark "\x7b" = true)
    {marks : List String}
    (hinner : Balanced marks inner)
    (hclosing : closing.token.isMark "\x7d" = true)
    (depth : Nat)
    (more : List Placed) :
    blockOf depth (enclosed depth (front ++ opening :: (inner ++ closing :: more))) =
      enclosed (depth + 1) inner := by
  have hencloses := encloses_of_isMark hopening hclosing rfl rfl
  have hnone : ∀ item ∈ enclosed depth front, (!item.isMarkAt depth "\x7b") = true := by
    intro item hitem
    rw [(h.within depth item hitem).2 _ List.mem_cons_self]
    rfl
  have hstop : ¬(!(Enclosed.mk depth opening).isMarkAt depth "\x7b") = true := by
    rw [isMarkAt_eq_true hopening]
    exact Bool.false_ne_true
  rw [blockOf, enclosed_append, h.depthAfter_eq, List.dropWhile_append_of_pos hnone,
    hencloses.enclosed_eq hinner,
    List.dropWhile_cons_of_neg (p := fun item : Enclosed => !item.isMarkAt depth "\x7b") hstop]
  exact (dropWhile_isDeeper hinner depth _ _).2

end Parts

end WebIdl
end FeatureProbes
