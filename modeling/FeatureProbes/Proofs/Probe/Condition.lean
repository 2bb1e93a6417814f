import FeatureProbes.Probe.Code
import Mathlib.Data.List.Basic

/-!
# Probes as conditions

The code of a combined probe is one text: the codes of its items with `&&` or `||` between them and
without parentheses.  A reader of the text takes `&&` as the operator that binds tighter, so the
text is a disjunction of rows, and each row is a conjunction.

A probe is read as it is meant if no conjunction of several conditions has a disjunction among
them.  Otherwise the `||` of such a disjunction splits the conjunction.
-/

namespace FeatureProbes
namespace Probe

/-! ## Reading a condition -/

/-- Where a character of a condition stands. -/
inductive Place where
  | outside
  /-- In a string that the given mark closes. -/
  | inString (mark : Char)
  /-- Behind a backslash in a string. -/
  | escaped (mark : Char)
  deriving DecidableEq

/-- Where the character after a given one stands. -/
def Place.next : Place → Char → Place
  | outside, c => if c = '"' ∨ c = '\x27' ∨ c = '\x60' then inString c else outside
  | inString mark, c =>
      if c = mark then outside else if c = '\\' then escaped mark else inString mark
  | escaped mark, _ => inString mark

/-- An operator that is a doubled character, with a blank on each side. -/
def spaced (mark : Char) : List Char := [' ', mark, mark, ' ']

/-- The pieces of a condition between the operators that stand outside of strings.  The number
counts the characters of an operator that are still to be skipped. -/
def pieces (mark : Char) : Nat → Place → List Char → List (List Char)
  | _, _, [] => [[]]
  | left + 1, place, _ :: rest => pieces mark left place rest
  | 0, place, c :: rest =>
      if place = .outside ∧ (spaced mark).isPrefixOf (c :: rest) then
        [] :: pieces mark 3 .outside rest
      else (pieces mark 0 (place.next c) rest).modifyHead (c :: ·)

/-- A condition as a disjunction of conjunctions: it is cut at the operator that binds less first,
and then each row at the other one. -/
def read (text : String) : List (List String) :=
  (pieces '|' 0 .outside text.toList).map fun row =>
    (pieces '&' 0 .outside row).map String.ofList

/-- Whether a condition holds if single conditions hold as given. -/
def isTrue (assignment : String → Bool) (text : String) : Bool :=
  (read text).any fun row => row.all assignment

/-- Whether a text closes its strings and has a character only inside of them. -/
def isFree (mark : Char) : Place → List Char → Bool
  | place, [] => place == .outside
  | place, c :: rest => !(place == .outside && c == mark) && isFree mark (place.next c) rest

/-- Whether a condition has no operator outside of strings. -/
def isAtomic (text : String) : Bool :=
  isFree '|' .outside text.toList && isFree '&' .outside text.toList

section Pieces

variable {mark other : Char} {place : Place} {text rest : List Char} {parts : List (List Char)}

theorem isFree_cons_iff
    {c : Char} :
    isFree mark place (c :: rest) ↔
      (place = .outside → c ≠ mark) ∧ isFree mark (place.next c) rest := by
  simp [isFree, imp_iff_not_or]

/-- No operator begins in a free text, whatever free text or operator follows. -/
theorem not_isPrefixOf_of_isFree
    {c : Char}
    (hfree : isFree mark place (c :: text))
    (hrest : rest.head? ≠ some mark) :
    ¬(place = .outside ∧ (spaced mark).isPrefixOf (c :: (text ++ rest))) := by
  rintro ⟨rfl, hprefix⟩
  cases text with
  | nil =>
      cases rest with
      | nil =>
          simp [spaced] at hprefix
      | cons d more =>
          simp only [spaced, List.nil_append, List.isPrefixOf_cons_cons, Bool.and_eq_true,
            beq_iff_eq] at hprefix
          exact hrest (congrArg some hprefix.2.1.symm)
  | cons d more =>
      simp only [spaced, List.cons_append, List.isPrefixOf_cons_cons, Bool.and_eq_true,
        beq_iff_eq] at hprefix
      obtain ⟨rfl, rfl, -⟩ := hprefix
      exact (isFree_cons_iff.1 (isFree_cons_iff.1 hfree).2).1 (by decide) rfl

/-- A text without the operator is one piece. -/
theorem pieces_of_isFree
    (hfree : isFree mark place text) :
    pieces mark 0 place text = [text] := by
  induction text generalizing place with
  | nil =>
      rfl
  | cons c text ih =>
      have hnot := @not_isPrefixOf_of_isFree mark place text [] c hfree (by simp)
      rw [List.append_nil] at hnot
      rw [pieces, if_neg hnot, ih (isFree_cons_iff.1 hfree).2]
      rfl

/-- What stands before the first operator is the first piece. -/
theorem pieces_append_spaced
    (hmark : mark ≠ ' ')
    (hfree : isFree mark place text) :
    pieces mark 0 place (text ++ (spaced mark ++ rest)) = text :: pieces mark 0 .outside rest := by
  induction text generalizing place with
  | nil =>
      obtain rfl : place = .outside := by
        simpa [isFree] using hfree
      simp [spaced, pieces]
  | cons c text ih =>
      have hnot := @not_isPrefixOf_of_isFree mark place text (spaced mark ++ rest) c hfree
        (by simpa [spaced] using hmark.symm)
      rw [List.cons_append, pieces, if_neg hnot, ih (isFree_cons_iff.1 hfree).2]
      rfl

/-- Texts that are joined by an operator are the pieces at this operator. -/
theorem pieces_intercalate
    (hmark : mark ≠ ' ')
    (hne : parts ≠ [])
    (hfree : ∀ part ∈ parts, isFree mark .outside part) :
    pieces mark 0 .outside (List.intercalate (spaced mark) parts) = parts := by
  induction parts with
  | nil =>
      exact absurd rfl hne
  | cons part parts ih =>
      have hpart := hfree part List.mem_cons_self
      cases parts with
      | nil =>
          rw [List.intercalate_singleton]
          exact pieces_of_isFree hpart
      | cons next more =>
          rw [List.intercalate_cons_cons, List.append_assoc, pieces_append_spaced hmark hpart,
            ih (by simp) fun other hother => hfree other (List.mem_cons_of_mem _ hother)]

theorem isFree_append
    (hfree : isFree mark place text)
    (hrest : isFree mark .outside rest) :
    isFree mark place (text ++ rest) := by
  induction text generalizing place with
  | nil =>
      obtain rfl : place = .outside := by
        simpa [isFree] using hfree
      exact hrest
  | cons c text ih =>
      obtain ⟨hc, htext⟩ := isFree_cons_iff.1 hfree
      exact isFree_cons_iff.2 ⟨hc, ih htext⟩

theorem isFree_toList_append
    {first second : String}
    (hfirst : isFree mark place first.toList)
    (hsecond : isFree mark .outside second.toList) :
    isFree mark place (first ++ second).toList := by
  rw [String.toList_append]
  exact isFree_append hfirst hsecond

/-- Joining by another operator adds none of the first. -/
theorem isFree_intercalate
    (hspaced : isFree mark .outside (spaced other))
    (hfree : ∀ part ∈ parts, isFree mark .outside part) :
    isFree mark .outside (List.intercalate (spaced other) parts) := by
  induction parts with
  | nil =>
      rfl
  | cons part parts ih =>
      have hpart := hfree part List.mem_cons_self
      cases parts with
      | nil =>
          rwa [List.intercalate_singleton]
      | cons next more =>
          rw [List.intercalate_cons_cons, List.append_assoc]
          exact isFree_append hpart (isFree_append hspaced
            (ih fun other hother => hfree other (List.mem_cons_of_mem _ hother)))

end Pieces

/-- What stands in a string does not matter. -/
theorem isFree_string
    {mark : Char} {property rest : List Char}
    (hproperty : ∀ c ∈ property, c ≠ '"' ∧ c ≠ '\\') :
    isFree mark (.inString '"') (property ++ '"' :: rest) = isFree mark .outside rest := by
  induction property with
  | nil =>
      simp [isFree, Place.next]
  | cons c property ih =>
      obtain ⟨hquote, hescape⟩ := hproperty c List.mem_cons_self
      rw [List.cons_append, isFree]
      simp only [Place.next, hquote, hescape, if_false]
      rw [ih fun d hd => hproperty d (List.mem_cons_of_mem _ hd)]
      simp

theorem isFree_inQuotes
    {mark : Char} {property : String}
    (hmark : mark ≠ '"')
    (hproperty : ∀ c ∈ property.toList, c ≠ '"' ∧ c ≠ '\\') :
    isFree mark .outside (inQuotes property).toList := by
  have htext : (inQuotes property).toList = '"' :: (property.toList ++ ['"']) := by
    simp [inQuotes]
  rw [htext]
  exact isFree_cons_iff.2 ⟨fun _ => hmark.symm, isFree_string hproperty⟩

/-- A look at a property of the global object is a single condition, whatever the property is
called. -/
theorem isAtomic_code_of_self
    {ref : MemberRef}
    (howner : ref.owner = "self")
    (hconstructor : Text.dropStart? "constructor." ref.property = none)
    (hsymbol : ref.symbol? = none)
    (hproperty : ∀ c ∈ ref.property.toList, c ≠ '"' ∧ c ≠ '\\') :
    isAtomic ref.code := by
  have hcode : ref.code = if ref.isOwn then ref.ownCode else has ref.property "self" := by
    rw [MemberRef.code, hconstructor, hsymbol]
    simp [MemberRef.propertyCode, MemberRef.guarded, howner]
  have hfree : ∀ mark : Char, mark = '|' ∨ mark = '&' →
      isFree mark .outside ref.code.toList := by
    intro mark hmark
    have hquoted : isFree mark .outside (inQuotes ref.property).toList :=
      isFree_inQuotes (by rcases hmark with rfl | rfl <;> decide) hproperty
    rw [hcode]
    split
    · have hcall : isFree mark .outside
          ("Object.prototype.hasOwnProperty.call(" ++ "self" ++ ", ").toList := by
        rcases hmark with rfl | rfl <;> decide +kernel
      have hclose : isFree mark .outside ")".toList := by
        rcases hmark with rfl | rfl <;> decide
      unfold MemberRef.ownCode
      rw [howner]
      exact isFree_toList_append (isFree_toList_append hcall hquoted) hclose
    · have hin : isFree mark .outside " in ".toList := by
        rcases hmark with rfl | rfl <;> decide
      have hself : isFree mark .outside "self".toList := by
        rcases hmark with rfl | rfl <;> decide
      unfold has
      exact isFree_toList_append (isFree_toList_append hquoted hin) hself
  exact Bool.and_eq_true_iff.2 ⟨hfree '|' (Or.inl rfl), hfree '&' (Or.inr rfl)⟩

/-! ## Writing a condition -/

/-- Rows of single conditions as a text. -/
def textOf (rows : List (List String)) : String :=
  " || ".intercalate (rows.map (String.intercalate " && "))

/-- Rows that can be read back: there is a row, no row is empty, and all conditions are single. -/
structure IsReading (rows : List (List String)) : Prop where
  ne : rows ≠ []
  row_ne : ∀ row ∈ rows, row ≠ []
  atomic : ∀ row ∈ rows, ∀ atom ∈ row, isAtomic atom

/-- A text that some rows of single conditions are written as. -/
def IsCondition (text : String) : Prop :=
  ∃ rows, IsReading rows ∧ text = textOf rows

section Rows

variable {rows : List (List String)} {row : List String} {text : String} {texts : List String}

theorem toList_intercalate_or :
    (" || ".intercalate texts).toList =
      List.intercalate (spaced '|') (texts.map String.toList) := by
  rw [String.toList_intercalate]
  rfl

theorem toList_intercalate_and :
    (" && ".intercalate texts).toList =
      List.intercalate (spaced '&') (texts.map String.toList) := by
  rw [String.toList_intercalate]
  rfl

theorem isFree_or_of_row
    (hatomic : ∀ atom ∈ row, isAtomic atom) :
    isFree '|' .outside (" && ".intercalate row).toList := by
  rw [toList_intercalate_and]
  refine isFree_intercalate (by decide) ?_
  intro part hpart
  obtain ⟨atom, hatom, rfl⟩ := List.mem_map.1 hpart
  exact (Bool.and_eq_true_iff.1 (hatomic atom hatom)).1

theorem pieces_and_of_row
    (hne : row ≠ [])
    (hatomic : ∀ atom ∈ row, isAtomic atom) :
    (pieces '&' 0 .outside (" && ".intercalate row).toList).map String.ofList = row := by
  rw [toList_intercalate_and, pieces_intercalate (by decide) (by simpa using hne), List.map_map]
  · exact (List.map_congr_left fun atom _ => String.ofList_toList).trans (List.map_id _)
  · intro part hpart
    obtain ⟨atom, hatom, rfl⟩ := List.mem_map.1 hpart
    exact (Bool.and_eq_true_iff.1 (hatomic atom hatom)).2

/-- Rows are read back from their text. -/
theorem read_textOf
    (h : IsReading rows) :
    read (textOf rows) = rows := by
  rw [read, textOf, toList_intercalate_or, List.map_map,
    pieces_intercalate (by decide) (by simpa using h.ne), List.map_map]
  · refine (List.map_congr_left fun row hrow => ?_).trans (List.map_id _)
    exact pieces_and_of_row (h.row_ne row hrow) (h.atomic row hrow)
  · intro part hpart
    obtain ⟨row, hrow, rfl⟩ := List.mem_map.1 hpart
    exact isFree_or_of_row (h.atomic row hrow)

theorem IsCondition.isReading
    (h : IsCondition text) :
    IsReading (read text) := by
  obtain ⟨rows, hrows, rfl⟩ := h
  rwa [read_textOf hrows]

theorem IsCondition.textOf_read
    (h : IsCondition text) :
    textOf (read text) = text := by
  obtain ⟨rows, hrows, rfl⟩ := h
  rw [read_textOf hrows]

theorem isReading_singleton
    (h : isAtomic text) :
    IsReading [[text]] := by
  constructor <;> simp [h]

theorem isCondition_of_isAtomic
    (h : isAtomic text) :
    IsCondition text :=
  ⟨[[text]], isReading_singleton h, by simp [textOf]⟩

theorem isTrue_of_isAtomic
    {assignment : String → Bool}
    (h : isAtomic text) :
    isTrue assignment text = assignment text := by
  have hread : read text = [[text]] := by
    have hback := read_textOf (isReading_singleton h)
    simpa [textOf] using hback
  simp [isTrue, hread]

/-- Joining rows that are joined themselves is joining all of their texts. -/
theorem intercalate_flatten
    {separator : String}
    (hne : ∀ row ∈ rows, row ≠ []) :
    separator.intercalate (rows.map separator.intercalate) =
      separator.intercalate rows.flatten := by
  induction rows with
  | nil =>
      rfl
  | cons row rows ih =>
      have hrows : ∀ other ∈ rows, other ≠ [] := fun other hother =>
        hne other (List.mem_cons_of_mem _ hother)
      cases rows with
      | nil =>
          simp
      | cons next more =>
          have hflat : (next :: more).flatten ≠ [] := by
            simp [hrows next List.mem_cons_self]
          rw [List.map_cons, String.intercalate_cons_of_ne_nil (by simp), ih hrows,
            List.flatten_cons (l := row),
            String.intercalate_append_of_ne_nil (hne row List.mem_cons_self) hflat]

/-- A disjunction of conditions has the rows of all of them. -/
theorem isCondition_intercalate_or
    (hne : texts ≠ [])
    (h : ∀ text ∈ texts, IsCondition text) :
    IsCondition (" || ".intercalate texts) ∧
      read (" || ".intercalate texts) = texts.flatMap read := by
  have hreading : IsReading (texts.flatMap read) := by
    obtain ⟨first, hfirst⟩ := List.exists_mem_of_ne_nil texts hne
    obtain ⟨row, hrow⟩ := List.exists_mem_of_ne_nil _ (h first hfirst).isReading.ne
    refine ⟨?_, ?_, ?_⟩
    · exact List.ne_nil_of_mem (List.mem_flatMap.2 ⟨first, hfirst, hrow⟩)
    · intro row hrow
      obtain ⟨text, htext, hrow⟩ := List.mem_flatMap.1 hrow
      exact (h text htext).isReading.row_ne row hrow
    · intro row hrow
      obtain ⟨text, htext, hrow⟩ := List.mem_flatMap.1 hrow
      exact (h text htext).isReading.atomic row hrow
  have htext : " || ".intercalate texts = textOf (texts.flatMap read) := by
    have hrows : ∀ row ∈ texts.map fun text => (read text).map (String.intercalate " && "),
        row ≠ [] := by
      intro row hrow
      obtain ⟨text, htext, rfl⟩ := List.mem_map.1 hrow
      simpa using (h text htext).isReading.ne
    have hmap : texts = (texts.map fun text => (read text).map (String.intercalate " && ")).map
        (String.intercalate " || ") := by
      rw [List.map_map]
      refine (List.map_id _).symm.trans (List.map_congr_left fun text htext => ?_)
      exact (h text htext).textOf_read.symm
    calc " || ".intercalate texts
        = " || ".intercalate ((texts.map fun text =>
            (read text).map (String.intercalate " && ")).map (String.intercalate " || ")) :=
          congrArg _ hmap
      _ = " || ".intercalate (texts.map fun text =>
            (read text).map (String.intercalate " && ")).flatten := intercalate_flatten hrows
      _ = textOf (texts.flatMap read) := by
          rw [textOf, List.map_flatMap, List.flatMap_def]
  exact ⟨⟨_, hreading, htext⟩, by rw [htext, read_textOf hreading]⟩

/-- A conjunction of conditions without disjunctions has one row. -/
theorem isCondition_intercalate_and
    (hne : texts ≠ [])
    (h : ∀ text ∈ texts, IsCondition text ∧ (read text).length = 1) :
    IsCondition (" && ".intercalate texts) ∧
      read (" && ".intercalate texts) = [texts.flatMap fun text => (read text).flatten] := by
  have hsingle : ∀ text ∈ texts, read text = [(read text).flatten] := by
    intro text htext
    obtain ⟨row, hrow⟩ := List.length_eq_one_iff.1 (h text htext).2
    simp [hrow]
  have hrows : ∀ row ∈ texts.map fun text => (read text).flatten,
      row ≠ [] ∧ ∀ atom ∈ row, isAtomic atom := by
    intro row hrow
    obtain ⟨text, htext, rfl⟩ := List.mem_map.1 hrow
    have hmem : (read text).flatten ∈ read text := by
      rw [hsingle text htext]
      simp
    have hreading := (h text htext).1.isReading
    exact ⟨hreading.row_ne _ hmem, hreading.atomic _ hmem⟩
  have hreading : IsReading [texts.flatMap fun text => (read text).flatten] := by
    obtain ⟨first, hfirst⟩ := List.exists_mem_of_ne_nil texts hne
    obtain ⟨hfirstNe, -⟩ := hrows _ (List.mem_map_of_mem hfirst)
    obtain ⟨atom, hatom⟩ := List.exists_mem_of_ne_nil _ hfirstNe
    refine ⟨by simp, ?_, ?_⟩
    · intro row hrow
      rw [List.mem_singleton.1 hrow]
      exact List.ne_nil_of_mem (List.mem_flatMap.2 ⟨first, hfirst, hatom⟩)
    · intro row hrow atom hatom
      rw [List.mem_singleton.1 hrow] at hatom
      obtain ⟨text, htext, hatom⟩ := List.mem_flatMap.1 hatom
      exact (hrows _ (List.mem_map_of_mem htext)).2 atom hatom
  have htext : " && ".intercalate texts =
      textOf [texts.flatMap fun text => (read text).flatten] := by
    have hmap : texts = (texts.map fun text => (read text).flatten).map
        (String.intercalate " && ") := by
      rw [List.map_map]
      refine (List.map_id _).symm.trans (List.map_congr_left fun text htext => ?_)
      have hback := (h text htext).1.textOf_read
      rw [hsingle text htext] at hback
      simpa [textOf] using hback.symm
    calc " && ".intercalate texts
        = " && ".intercalate ((texts.map fun text => (read text).flatten).map
            (String.intercalate " && ")) := congrArg _ hmap
      _ = " && ".intercalate (texts.map fun text => (read text).flatten).flatten :=
          intercalate_flatten fun row hrow => (hrows row hrow).1
      _ = textOf [texts.flatMap fun text => (read text).flatten] := by
          simp [textOf, List.flatMap_def]
  exact ⟨⟨_, hreading, htext⟩, by rw [htext, read_textOf hreading]⟩

end Rows

theorem isTrue_intercalate_or
    {assignment : String → Bool} {texts : List String}
    (hne : texts ≠ [])
    (h : ∀ text ∈ texts, IsCondition text) :
    isTrue assignment (" || ".intercalate texts) = texts.any (isTrue assignment) := by
  rw [isTrue, (isCondition_intercalate_or hne h).2, List.any_flatMap]
  rfl

theorem isTrue_intercalate_and
    {assignment : String → Bool} {texts : List String}
    (hne : texts ≠ [])
    (h : ∀ text ∈ texts, IsCondition text ∧ (read text).length = 1) :
    isTrue assignment (" && ".intercalate texts) = texts.all (isTrue assignment) := by
  rw [isTrue, (isCondition_intercalate_and hne h).2, List.any_cons, List.any_nil, Bool.or_false,
    List.all_flatMap]
  rw [Bool.eq_iff_iff, List.all_eq_true, List.all_eq_true]
  refine forall₂_congr fun text htext => ?_
  obtain ⟨row, hrow⟩ := List.length_eq_one_iff.1 (h text htext).2
  simp [isTrue, hrow]

/-! ## Combined probes -/

namespace TestCode

mutual

/-- Whether a probe holds if single conditions hold as given: of a conjunction all items must hold,
of a disjunction one. -/
def holds (assignment : String → Bool) : TestCode → Bool
  | raw code => assignment code
  | member ref => assignment ref.code
  | combined items .all => (holdAll assignment items).all id
  | combined items .any => (holdAll assignment items).any id

/-- Whether each of some probes holds. -/
def holdAll (assignment : String → Bool) : List TestCode → List Bool
  | [] => []
  | item :: more => holds assignment item :: holdAll assignment more

end

/-- Every combination has items, and what is not combined is a single condition. -/
inductive WellFormed : TestCode → Prop where
  | raw {code : String} (hatomic : isAtomic code) : WellFormed (.raw code)
  | member {ref : MemberRef} (hatomic : isAtomic ref.code) : WellFormed (.member ref)
  | combined {items : List TestCode} {combinator : Combinator}
      (hne : items ≠ [])
      (hitems : ∀ item ∈ items, WellFormed item) :
      WellFormed (.combined items combinator)

/-- No conjunction of several conditions has a disjunction among them. -/
inductive Grouped : TestCode → Prop where
  | raw {code : String} : Grouped (.raw code)
  | member {ref : MemberRef} : Grouped (.member ref)
  | any {items : List TestCode}
      (hitems : ∀ item ∈ items, Grouped item) :
      Grouped (.combined items .any)
  | all {items : List TestCode}
      (hitems : ∀ item ∈ items, Grouped item)
      (hflat : (dropRepeats (compileAll items)).length = 1 ∨
        ∀ item ∈ items, isFree '|' .outside item.compile.toList) :
      Grouped (.combined items .all)

section Combined

variable {assignment : String → Bool} {items : List TestCode}

theorem compileAll_eq_map :
    compileAll items = items.map compile := by
  induction items with
  | nil =>
      rfl
  | cons item items ih =>
      rw [compileAll, ih, List.map_cons]

theorem holdAll_eq_map :
    holdAll assignment items = items.map (holds assignment) := by
  induction items with
  | nil =>
      rfl
  | cons item items ih =>
      rw [holdAll, ih, List.map_cons]

end Combined

end TestCode

theorem mem_dropRepeats
    {text : String} {texts : List String} :
    text ∈ dropRepeats texts ↔ text ∈ texts := by
  fun_induction dropRepeats texts with
  | case1 =>
      rfl
  | case2 first =>
      rfl
  | case3 first more ih =>
      rw [ih]
      simp
  | case4 first second more hne ih =>
      rw [List.mem_cons, ih, List.mem_cons (l := second :: more)]

section Meaning

variable {assignment : String → Bool} {items : List TestCode}

theorem dropRepeats_compileAll_ne_nil
    (hne : items ≠ []) :
    dropRepeats (TestCode.compileAll items) ≠ [] := by
  obtain ⟨item, hitem⟩ := List.exists_mem_of_ne_nil items hne
  refine List.ne_nil_of_mem (a := item.compile) (mem_dropRepeats.2 ?_)
  rw [TestCode.compileAll_eq_map]
  exact List.mem_map_of_mem hitem

/-- What holds of all items holds of the texts that are joined. -/
theorem forall_mem_dropRepeats_compileAll
    {P : String → Prop}
    (h : ∀ item ∈ items, P item.compile) :
    ∀ text ∈ dropRepeats (TestCode.compileAll items), P text := by
  intro text htext
  rw [mem_dropRepeats, TestCode.compileAll_eq_map] at htext
  obtain ⟨item, hitem, rfl⟩ := List.mem_map.1 htext
  exact h item hitem

/-- A disjunction does not depend on repeated items. -/
theorem any_dropRepeats_compileAll
    (h : ∀ item ∈ items, isTrue assignment item.compile = item.holds assignment) :
    (dropRepeats (TestCode.compileAll items)).any (isTrue assignment) =
      (TestCode.holdAll assignment items).any id := by
  rw [TestCode.holdAll_eq_map, Bool.eq_iff_iff, List.any_eq_true, List.any_map, List.any_eq_true]
  simp only [mem_dropRepeats, TestCode.compileAll_eq_map, List.mem_map]
  constructor
  · rintro ⟨_, ⟨item, hitem, rfl⟩, hvalue⟩
    exact ⟨item, hitem, (h item hitem).symm.trans hvalue⟩
  · rintro ⟨item, hitem, hvalue⟩
    exact ⟨_, ⟨item, hitem, rfl⟩, (h item hitem).trans hvalue⟩

/-- A conjunction does not depend on repeated items. -/
theorem all_dropRepeats_compileAll
    (h : ∀ item ∈ items, isTrue assignment item.compile = item.holds assignment) :
    (dropRepeats (TestCode.compileAll items)).all (isTrue assignment) =
      (TestCode.holdAll assignment items).all id := by
  rw [TestCode.holdAll_eq_map, Bool.eq_iff_iff, List.all_eq_true, List.all_map, List.all_eq_true]
  simp only [mem_dropRepeats, TestCode.compileAll_eq_map, List.mem_map]
  constructor
  · intro hall item hitem
    exact (h item hitem).symm.trans (hall _ ⟨item, hitem, rfl⟩)
  · rintro hall _ ⟨item, hitem, rfl⟩
    exact (h item hitem).trans (hall item hitem)

/-- A text without a disjunction has one row. -/
theorem length_read_of_isFree
    {text : String}
    (h : isFree '|' .outside text.toList) :
    (read text).length = 1 := by
  rw [read, pieces_of_isFree h, List.map_singleton, List.length_singleton]

/-- The text of a probe can be read, and it is true just if the probe holds. -/
theorem TestCode.WellFormed.isCondition_and_isTrue
    {code : TestCode}
    (hcode : code.WellFormed)
    (hgrouped : code.Grouped) :
    IsCondition code.compile ∧ isTrue assignment code.compile = code.holds assignment := by
  induction hcode with
  | raw hatomic =>
      exact ⟨isCondition_of_isAtomic hatomic, isTrue_of_isAtomic hatomic⟩
  | member hatomic =>
      exact ⟨isCondition_of_isAtomic hatomic, isTrue_of_isAtomic hatomic⟩
  | @combined items combinator hne hitems ih =>
      have htexts := dropRepeats_compileAll_ne_nil hne
      cases hgrouped with
      | any hgrouped =>
          have hall : ∀ text ∈ dropRepeats (compileAll items), IsCondition text :=
            forall_mem_dropRepeats_compileAll fun item hitem =>
              (ih item hitem (hgrouped item hitem)).1
          refine ⟨(isCondition_intercalate_or htexts hall).1, ?_⟩
          exact (isTrue_intercalate_or htexts hall).trans
            (any_dropRepeats_compileAll fun item hitem => (ih item hitem (hgrouped item hitem)).2)
      | all hgrouped hflat =>
          have hvalue : (dropRepeats (compileAll items)).all (isTrue assignment) =
              (holdAll assignment items).all id :=
            all_dropRepeats_compileAll fun item hitem => (ih item hitem (hgrouped item hitem)).2
          have hall : ∀ text ∈ dropRepeats (compileAll items), IsCondition text :=
            forall_mem_dropRepeats_compileAll fun item hitem =>
              (ih item hitem (hgrouped item hitem)).1
          rcases hflat with hsingle | hfree
          · obtain ⟨text, htext⟩ := List.length_eq_one_iff.1 hsingle
            rw [htext] at hall hvalue
            have hcompile : (TestCode.combined items .all).compile = text := by
              rw [TestCode.compile, htext, String.intercalate_singleton]
            rw [hcompile]
            exact ⟨hall text (List.mem_singleton.2 rfl), by simpa [holds] using hvalue⟩
          · have hrows : ∀ text ∈ dropRepeats (compileAll items), (read text).length = 1 :=
              forall_mem_dropRepeats_compileAll fun item hitem =>
                length_read_of_isFree (hfree item hitem)
            have hboth := fun text htext => And.intro (hall text htext) (hrows text htext)
            exact ⟨(isCondition_intercalate_and htexts hboth).1,
              (isTrue_intercalate_and htexts hboth).trans hvalue⟩

end Meaning

/-- The text of a probe whose combinations have items and whose other parts are single conditions
is true just if the probe holds, whatever the single conditions are, unless a conjunction of
several conditions has a disjunction among them. -/
theorem isTrue_compile
    {code : TestCode}
    (assignment : String → Bool)
    (hcode : code.WellFormed)
    (hgrouped : code.Grouped) :
    isTrue assignment code.compile = code.holds assignment :=
  (hcode.isCondition_and_isTrue hgrouped).2

/-- A disjunction of conjunctions, with a repeated item and operators in a string. -/
def switchboard : TestCode :=
  .combined
    [.combined [.member (.of "self" "fetch"), .raw "x", .raw "x"] .all,
      .combined [.combined [.raw "x", .raw "\"a || b\" in self"] .any] .all,
      .raw "y"]
    .any

/-- The switchboard is true where only the name in the string is there, and false where only the
first item of its conjunction holds. -/
theorem isTrue_switchboard :
    switchboard.WellFormed ∧ switchboard.Grouped ∧
      switchboard.compile = "\"fetch\" in self && x || x || \"a || b\" in self || y" ∧
      isTrue (· = "\"a || b\" in self") switchboard.compile = true ∧
      isTrue (· = "\"fetch\" in self") switchboard.compile = false := by
  have hfetch : (TestCode.member (.of "self" "fetch")).WellFormed := .member (by decide)
  have hx : (TestCode.raw "x").WellFormed := .raw (by decide)
  have hstring : (TestCode.raw "\"a || b\" in self").WellFormed := .raw (by decide)
  have hy : (TestCode.raw "y").WellFormed := .raw (by decide)
  have hcode : switchboard.WellFormed := by
    refine .combined (by simp) (List.forall_mem_cons.2 ⟨?_, List.forall_mem_cons.2 ⟨?_, ?_⟩⟩)
    · exact .combined (by simp) (by simp [hfetch, hx])
    · have hinner : (TestCode.combined [.raw "x", .raw "\"a || b\" in self"] .any).WellFormed :=
        .combined (by simp) (by simp [hx, hstring])
      exact .combined (by simp) (by simp [hinner])
    · simp [hy]
  have hgrouped : switchboard.Grouped := by
    refine .any (List.forall_mem_cons.2 ⟨?_, List.forall_mem_cons.2 ⟨?_, ?_⟩⟩)
    · refine .all ?_ (Or.inr (by decide))
      simp [TestCode.Grouped.raw, TestCode.Grouped.member]
    · have hinner : (TestCode.combined [.raw "x", .raw "\"a || b\" in self"] .any).Grouped :=
        .any (by simp [TestCode.Grouped.raw])
      exact .all (by simp [hinner]) (Or.inl (by decide))
    · simp [TestCode.Grouped.raw]
  exact ⟨hcode, hgrouped, by decide, isTrue_compile _ hcode hgrouped,
    isTrue_compile _ hcode hgrouped⟩

/-- Without parentheses a disjunction in a conjunction is not read as it is meant: the text is true
where its last item holds, whatever the other conditions are. -/
theorem isTrue_compile_disjunctionInConjunction :
    ∃ (code : TestCode) (assignment : String → Bool), code.WellFormed ∧
      code.compile = "\"fetch\" in self && x || y" ∧
      isTrue assignment code.compile = true ∧ code.holds assignment = false := by
  have hfetch : (TestCode.member (.of "self" "fetch")).WellFormed := .member (by decide)
  have hx : (TestCode.raw "x").WellFormed := .raw (by decide)
  have hy : (TestCode.raw "y").WellFormed := .raw (by decide)
  have hinner : (TestCode.combined [.raw "x", .raw "y"] .any).WellFormed :=
    .combined (by simp) (by simp [hx, hy])
  have hcode : (TestCode.combined [.member (.of "self" "fetch"),
      .combined [.raw "x", .raw "y"] .any] .all).WellFormed :=
    .combined (by simp) (by simp [hfetch, hinner])
  exact ⟨_, (· = "y"), hcode, by decide, by decide, by decide⟩

end Probe
end FeatureProbes
