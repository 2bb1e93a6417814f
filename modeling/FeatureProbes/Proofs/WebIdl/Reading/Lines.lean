import FeatureProbes.Proofs.WebIdl.Reading.Rows
import Mathlib.Data.List.Forall2

/-!
# Lines of definitions and members

Every definition that is read is a statement of the text, and so is every member in its braces.  Each
has the line on which its statement begins behind its extended attributes.  Comments and strings over
several lines, nested extended attributes and whatever else stands before it do not matter.

A token has the line on which it ends.  Unless it is a string, this is the line on which it begins.
-/

namespace FeatureProbes
namespace WebIdl

/-! ## Lines of statements -/

/-- A statement begins on this line behind its extended attributes. -/
def BeginsOn (depth : Nat) (line : UInt32) (statement : List Enclosed) : Prop :=
  ∃ first ∈ (bodyOf depth statement).head?, line.toNat = first.placed.line

/-- A definition has the line of its statement, and its members have the lines of the statements in
its braces. -/
def Definition.HasLines (definition : Definition) (statement : List Enclosed) : Prop :=
  BeginsOn 0 definition.line statement ∧
    List.Forall₂ (fun member part => BeginsOn 1 member.line part) definition.members
      (statementsAt 1 (blockOf 0 statement))

/-! ## Lines of tokens -/

/-- The lines of tokens that are no strings are those on which they begin, and can be counted. -/
def HasStart (placed : Placed) : Prop :=
  placed.token.kind ≠ .string → (UInt32.ofNat placed.token.line).toNat = placed.line

theorem Layout.line_eq
    {before part rest : List Char} {placed : List Placed}
    (h : Layout before part placed rest) :
    ∀ item ∈ placed, item.token.kind ≠ .string → item.token.line = item.line := by
  induction h with
  | nil =>
      exact nofun
  | gap hgap h ih =>
      exact ih
  | @token before part rest placed token hfits hline h ih =>
      rw [List.forall_mem_cons]
      refine ⟨fun hkind => ?_, ih⟩
      have hcount : token.spelling.count '\n' = 0 := hfits.count_eq_zero hkind
      rw [hline, List.count_append, hcount]
      rfl

theorem Layout.count_le
    {before part rest : List Char} {placed : List Placed}
    (h : Layout before part placed rest) :
    ∀ item ∈ placed, item.before.count '\n' ≤ (before ++ part).count '\n' := by
  induction h with
  | nil =>
      exact nofun
  | gap hgap h ih =>
      rw [List.append_assoc] at ih
      exact ih
  | token hfits hline h ih =>
      rw [List.append_assoc] at ih
      rw [List.forall_mem_cons]
      refine ⟨?_, ih⟩
      rw [List.count_append]
      exact Nat.le_add_right _ _

theorem hasStart_of_layout
    {text : List Char} {placed : List Placed}
    (h : Layout [] text placed [])
    (hlines : text.count '\n' < UInt32.size - 1) :
    ∀ item ∈ placed, HasStart item := by
  intro item hitem hkind
  have hcount : item.before.count '\n' ≤ text.count '\n' := h.count_le item hitem
  rw [h.line_eq item hitem hkind, Placed.line]
  exact UInt32.toNat_ofNat_of_lt' (by omega)

namespace Parser

/-! ## Lines of rows -/

section Rows

variable {α : Type} {line : UInt32} {row body : List Placed}

theorem StartsOn.beginsOn
    (h : StartsOn line row body)
    (hstart : ∀ placed ∈ row, HasStart placed)
    (depth : Nat) :
    BeginsOn depth line (enclosed depth row) := by
  cases h with
  | @intro front _ first hfront hbody hfirst hkind hline =>
      obtain ⟨more, rfl⟩ := List.head?_eq_some_iff.1 hfirst
      have hmem : first ∈ front ++ first :: more := by simp
      refine ⟨⟨min depth (depthBehind depth first.token), first⟩, ?_, ?_⟩
      · rw [hfront.bodyOf_eq hbody, enclosed]
        rfl
      · rw [hline]
        exact hstart first hmem hkind

theorem StartsOn.isStatement
    (h : StartsOn line row body)
    (hbody : IsStatement [";"] body) :
    IsStatement [";"] row := by
  obtain ⟨inner, last, rfl, hinner, hlast⟩ := hbody
  cases h with
  | @intro front _ first hfront _ _ _ _ =>
      exact ⟨front ++ inner, last, by rw [List.append_assoc],
        (hfront.balanced.mono (by decide)).append hinner, hlast⟩

/-- Rows that are statements are told apart as such. -/
theorem Rows.forall₂
    {shape : List Placed → α → Prop} {found : List α} {relation : α → List Enclosed → Prop}
    (h : Rows shape row found)
    (depth : Nat)
    (hstatement : ∀ part value, shape part value → IsStatement [";"] part)
    (hrelation : ∀ part value, shape part value → (∀ placed ∈ part, placed ∈ row) →
      relation value (enclosed depth part)) :
    List.Forall₂ relation found (statementsAt depth (enclosed depth row)) := by
  induction h with
  | nil =>
      exact .nil
  | @cons part more value others hpart hmore ih =>
      obtain ⟨inner, last, rfl, hinner, hlast⟩ := hstatement part value hpart
      rw [List.append_assoc, List.singleton_append, hinner.statementsAt_eq hlast]
      refine .cons (hrelation _ value hpart fun placed hplaced => ?_) (ih fun part value h hin => ?_)
      · exact List.mem_append_left _ hplaced
      · exact hrelation part value h fun placed hplaced => List.mem_append_right _ (hin placed hplaced)

theorem Rows.balanced
    {shape : List Placed → α → Prop} {found : List α}
    (h : Rows shape row found)
    (hstatement : ∀ part value, shape part value → IsStatement [";"] part) :
    Balanced [] row := by
  induction h with
  | nil =>
      exact balanced_nil
  | @cons part more value others hpart hmore ih =>
      obtain ⟨inner, last, rfl, hinner, hlast⟩ := hstatement part value hpart
      exact ((hinner.mono (by decide)).append (balanced_mark hlast (by decide))).append ih

end Rows

theorem IsMemberRow.isStatement
    {row : List Placed} {member : Member}
    (h : IsMemberRow row member) :
    IsStatement [";"] row := by
  obtain ⟨body, hstarts, hbody⟩ := h
  exact hstarts.isStatement hbody

section Definitions

variable {row body : List Placed}

theorem IsDefinitionBody.isStatement
    {members : List Member}
    (h : IsDefinitionBody body members) :
    IsStatement [";"] body := by
  have hbraces : ∀ {front inner : List Placed} {opening closing last : Placed},
      Balanced statementMarks front → opening.token.isMark "\x7b" = true → Balanced [] inner →
      closing.token.isMark "\x7d" = true → last.token.isMark ";" = true →
      IsStatement [";"] (front ++ opening :: (inner ++ [closing, last])) := by
    intro front inner opening closing last hfront hopening hinner hclosing hlast
    have hmatches : Matches "\x7b" "\x7d" [";"] := by decide
    have hblock := hmatches.balanced hopening hinner hclosing balanced_nil
    exact ⟨front ++ opening :: (inner ++ [closing]), last, by simp,
      (hfront.mono (by decide)).append hblock, hlast⟩
  cases h with
  | plain hrow =>
      obtain ⟨inner, last, rfl, hinner, hlast⟩ := hrow
      exact ⟨inner, last, rfl, hinner.mono (by decide), hlast⟩
  | values hfront hopening hinner hclosing hlast =>
      exact hbraces hfront hopening (hinner.mono (by decide)) hclosing hlast
  | block hfront hopening hinner hclosing hlast =>
      exact hbraces hfront hopening (hinner.balanced fun _ _ h => h.isStatement) hclosing hlast

/-- The members of a definition are the statements in its braces. -/
theorem IsDefinitionBody.members_forall₂
    {members : List Member} {front : List Placed}
    (h : IsDefinitionBody body members)
    (hfront : Balanced ["\x7b"] front)
    (hstart : ∀ placed ∈ body, HasStart placed) :
    List.Forall₂ (fun member part => BeginsOn 1 member.line part) members
      (statementsAt 1 (blockOf 0 (enclosed 0 (front ++ body)))) := by
  cases h with
  | plain hrow =>
      obtain ⟨inner, last, rfl, hinner, hlast⟩ := hrow
      have hall : Balanced ["\x7b"] (front ++ (inner ++ [last])) :=
        hfront.append ((hinner.mono (by decide)).append (balanced_mark hlast (by decide)))
      rw [hall.blockOf_eq_nil]
      exact .nil
  | @values between inner opening closing last hbetween hopening hinner hclosing hlast =>
      have hhead : Balanced ["\x7b"] (front ++ between) := hfront.append (hbetween.mono (by decide))
      rw [← List.append_assoc, hhead.blockOf_eq hopening hinner hclosing,
        statementsAt_of_none fun item hitem => (hinner.within 1 item hitem).2 ";" (by decide)]
      exact .nil
  | @block between inner opening closing last _ hbetween hopening hinner hclosing hlast =>
      have hhead : Balanced ["\x7b"] (front ++ between) := hfront.append (hbetween.mono (by decide))
      have hbalanced : Balanced [] inner := hinner.balanced fun _ _ h => h.isStatement
      rw [← List.append_assoc, hhead.blockOf_eq hopening hbalanced hclosing]
      refine hinner.forall₂ 1 (fun _ _ h => h.isStatement) fun part member h hin => ?_
      obtain ⟨memberBody, hstarts, -⟩ := h
      refine hstarts.beginsOn (fun placed hplaced => hstart placed ?_) 1
      have hmem := hin placed hplaced
      simp [hmem]

theorem IsDefinitionRow.hasLines
    {definition : Definition}
    (h : IsDefinitionRow row definition)
    (hstart : ∀ placed ∈ row, HasStart placed) :
    definition.HasLines (enclosed 0 row) := by
  obtain ⟨body, hstarts, hbody⟩ := h
  refine ⟨hstarts.beginsOn hstart 0, ?_⟩
  cases hstarts with
  | @intro front _ first hfront _ _ _ _ =>
      exact hbody.members_forall₂ (hfront.balanced.mono (by decide))
        fun placed hplaced => hstart placed (List.mem_append_right _ hplaced)

end Definitions

end Parser

/-- A text that is read consists of rows, one for each definition. -/
theorem rows_of_parse
    {text : List Char} {definitions : List Definition}
    (h : parse text = .ok definitions) :
    Layout [] text (placedTokens text) [] ∧
      Parser.Rows Parser.IsDefinitionRow (placedTokens text) definitions := by
  cases hscan : tokens text with
  | error stop =>
      rw [parse, hscan] at h
      cases h
  | ok scanned =>
      obtain ⟨found, last⟩ := scanned
      obtain ⟨hlayout, rfl, -⟩ := layout_of_tokens hscan
      refine ⟨hlayout, ?_⟩
      have hlevel := Parser.takes_definitions
        (Nested.takesRows_level (((placedTokens text).map Placed.token).length + 1))
        (Nested.refusesStrings_level _)
      rw [parse, hscan] at h
      simp only [definitionsOfTokens] at h
      cases hrun : Parser.definitions
          (Nested.level (((placedTokens text).map Placed.token).length + 1))
          ((placedTokens text).map Placed.token) with
      | error stop =>
          rw [hrun] at h
          cases h
      | ok read =>
          obtain ⟨read, rest⟩ := read
          rw [hrun] at h
          cases h
          obtain ⟨taken, behind, htaken, -, hrows, rfl⟩ := hlevel _ _ _ trivial hrun
          rw [htaken, List.append_nil]
          exact hrows

/-- Every definition and every member of a text that is read has the line on which it begins behind
its extended attributes. -/
theorem lines_of_parse
    {text : List Char} {definitions : List Definition}
    (h : parse text = .ok definitions)
    (hlines : text.count '\n' < UInt32.size - 1) :
    Layout [] text (placedTokens text) [] ∧
      List.Forall₂ Definition.HasLines definitions
        (statementsAt 0 (enclosed 0 (placedTokens text))) := by
  obtain ⟨hlayout, hrows⟩ := rows_of_parse h
  refine ⟨hlayout, ?_⟩
  have hstart := hasStart_of_layout hlayout hlines
  refine hrows.forall₂ 0 (fun _ _ h => ?_) fun row definition h hin => ?_
  · obtain ⟨body, hstarts, hbody⟩ := h
    exact hstarts.isStatement hbody.isStatement
  · exact h.hasLines fun placed hplaced => hstart placed (hin placed hplaced)

/-- The lines of definitions and of their members. -/
def linesOf (definitions : List Definition) : List (UInt32 × List UInt32) :=
  definitions.map fun definition => (definition.line, definition.members.map Member.line)

/-- An interface behind a comment and extended attributes over several lines, with such a member. -/
def notice : List Char :=
  ("/* ;\n */ [A=\"\n;\", B(optional [C] long d = \x7b\x7d)]\ninterface I \x7b // ]\n" ++
    " [E=\"\n\"]\n attribute long x;\n\x7d;").toList

/-- The interface begins on the fourth line and its member on the seventh. -/
theorem lines_of_notice :
    notice.count '\n' < UInt32.size - 1 ∧
      ∃ definitions, parse notice = .ok definitions ∧ linesOf definitions = [(4, [7])] ∧
        Layout [] notice (placedTokens notice) [] ∧
        List.Forall₂ Definition.HasLines definitions
          (statementsAt 0 (enclosed 0 (placedTokens notice))) := by
  have hlines : notice.count '\n' < UInt32.size - 1 := by decide
  have hread : (parse notice).toOption.map linesOf = some [(4, [7])] := by decide +kernel
  cases h : parse notice with
  | error stop =>
      rw [h] at hread
      cases hread
  | ok definitions =>
      rw [h] at hread
      exact ⟨hlines, definitions, rfl, Option.some.inj hread, lines_of_parse h hlines⟩

end WebIdl
end FeatureProbes
