import FeatureProbes.Proofs.WebIdl.Reading.Steps

/-!
# Reading types

A type is read back from its words, up to the word behind it, which must not belong to a type.
Nested types stand behind at least one word of the type around them, so the level of nesting never
runs out before the tokens do.
-/

namespace FeatureProbes
namespace WebIdl

/-! ## Names -/

theorem IsName.isScannable
    {text : String}
    (h : IsName text) :
    (Word.name text).IsScannable :=
  ⟨rfl, h.1, h.2.1⟩

theorem IsName.ne_of_mem
    {text word : String}
    (h : IsName text)
    (hword : word ∈ keywords) :
    text ≠ word := by
  rintro rfl
  exact h.2.2.1 hword

theorem IsName.isWord_eq
    {text word : String}
    (h : IsName text)
    (hword : word ∈ keywords) :
    (Word.name text).isWord word = false := by
  simpa using h.ne_of_mem hword

theorem IsName.ne_of_mem_typeKeywords
    {text word : String}
    (h : IsName text)
    (hword : word ∈ typeKeywords) :
    text ≠ word := by
  rintro rfl
  exact h.2.2.2 hword

theorem IsName.blank_not_mem
    {text : String}
    (h : IsName text) :
    ' ' ∉ text.toList :=
  fun hmem => absurd (List.all_eq_true.1 h.2.1 ' ' hmem) (by decide)

theorem IsTypeName.ne_nil
    {parts : List String}
    (h : IsTypeName parts) :
    parts ≠ [] := by
  cases h <;> exact List.cons_ne_nil _ _

theorem IsTypeName.blank_not_mem
    {parts : List String}
    (h : IsTypeName parts) :
    ∀ part ∈ parts, ' ' ∉ part.toList := by
  have hcons : ∀ {first : String} {rest : List String}, ' ' ∉ first.toList →
      (∀ part ∈ rest, ' ' ∉ part.toList) → ∀ part ∈ first :: rest, ' ' ∉ part.toList :=
    fun hfirst hrest => List.forall_mem_cons.2 ⟨hfirst, hrest⟩
  cases h with
  | plain hname =>
      exact hcons hname.blank_not_mem (by simp)
  | long =>
      decide
  | longLong =>
      decide
  | unsigned hname =>
      exact hcons (by decide) (hcons hname.blank_not_mem (by simp))
  | unsignedLong =>
      decide
  | unsignedLongLong =>
      decide
  | unrestricted hname =>
      exact hcons (by decide) (hcons hname.blank_not_mem (by simp))

theorem IsTypeName.words_eq
    {parts : List String}
    (h : IsTypeName parts) :
    typeNameWords (" ".intercalate parts) = parts.map Word.name := by
  have htext : (" ".intercalate parts).toList =
      List.intercalate [' '] (parts.map String.toList) := by
    rw [String.toList_intercalate]
    rfl
  have hsplit : List.splitOn ' ' (List.intercalate [' '] (parts.map String.toList)) =
      parts.map String.toList := by
    refine List.splitOn_intercalate _ ?_ ?_
    · intro part hpart
      obtain ⟨text, htext, rfl⟩ := List.mem_map.1 hpart
      exact h.blank_not_mem text htext
    · simpa using h.ne_nil
  rw [typeNameWords, htext, hsplit, List.map_map]
  refine List.map_congr_left fun part _ => ?_
  exact congrArg Word.name String.ofList_toList

/-! ## Around a type -/

/-- A word that does not go on with the type in front of it, but for the null value. -/
structure Word.EndsPlainType (word : Word) : Prop where
  notParameters : word.isMark "<" = false
  notLong : word.isWord "long" = false

/-- A word that does not go on with the type in front of it. -/
structure Word.EndsType (word : Word) : Prop extends word.EndsPlainType where
  notNullable : word.isMark "?" = false

theorem Word.endsType_mark
    {text : String}
    (h : text ∉ ["?", "<"]) :
    (Word.mark text).EndsType := by
  simp only [List.mem_cons, List.not_mem_nil, or_false, not_or] at h
  exact ⟨⟨by simpa using h.2, rfl⟩, by simpa using h.1⟩

theorem Word.endsType_name
    {text : String}
    (h : text ≠ "long") :
    (Word.name text).EndsType :=
  ⟨⟨by simp, by simpa using h⟩, by simp⟩

theorem IsName.endsType
    {text : String}
    (h : IsName text) :
    (Word.name text).EndsType :=
  Word.endsType_name (h.ne_of_mem_typeKeywords (by decide))

theorem Word.endsType_ellipsis : Word.ellipsis.EndsType :=
  ⟨⟨rfl, rfl⟩, rfl⟩

/-- A word that may begin a type. -/
inductive Word.OpensType : Word → Prop
  | name
      {text : String}
      (htext : text ∉ keywords) :
      OpensType (.name text)
  | parenthesis : OpensType (.mark "(")

theorem Word.OpensType.isWord_eq
    {word : Word} {text : String}
    (h : word.OpensType)
    (htext : text ∈ keywords) :
    word.isWord text = false := by
  cases h with
  | name hname =>
      rw [isWord_name, beq_eq_false_iff_ne]
      rintro rfl
      exact hname htext
  | parenthesis =>
      rfl

theorem Word.OpensType.isMark_eq
    {word : Word} {text : String}
    (h : word.OpensType)
    (htext : text ≠ "(") :
    word.isMark text = false := by
  cases h with
  | name hname =>
      exact isMark_name _ _
  | parenthesis =>
      simpa using Ne.symm htext

theorem IsTypeName.exists_words
    {parts : List String}
    (h : IsTypeName parts) :
    ∃ first more, parts = first :: more ∧ first ∉ keywords := by
  cases h with
  | plain hname =>
      exact ⟨_, _, rfl, hname.2.2.1⟩
  | long =>
      exact ⟨_, _, rfl, by decide⟩
  | longLong =>
      exact ⟨_, _, rfl, by decide⟩
  | unsigned hname =>
      exact ⟨_, _, rfl, by decide⟩
  | unsignedLong =>
      exact ⟨_, _, rfl, by decide⟩
  | unsignedLongLong =>
      exact ⟨_, _, rfl, by decide⟩
  | unrestricted hname =>
      exact ⟨_, _, rfl, by decide⟩

theorem not_mem_keywords_of_generic :
    ∀ name ∈ Parser.genericNames, name ∉ keywords := by
  decide

theorem IdlType.Expressible.exists_words
    {type : IdlType}
    (h : type.Expressible) :
    ∃ word more, type.words = word :: more ∧ word.OpensType := by
  induction h with
  | named hparts =>
      obtain ⟨first, more, hfirst, hkeyword⟩ := hparts.exists_words
      refine ⟨.name first, more.map Word.name, ?_, .name hkeyword⟩
      rw [words, hparts.words_eq, hfirst, List.map_cons]
  | generic hname hsome hargs =>
      exact ⟨_, _, rfl, .name (not_mem_keywords_of_generic _ hname)⟩
  | union hsome htypes =>
      exact ⟨_, _, rfl, .parenthesis⟩
  | nullable hplain hinner ih =>
      obtain ⟨word, more, hwords, hopens⟩ := ih
      refine ⟨word, more ++ [.mark "?"], ?_, hopens⟩
      rw [words, hwords, List.cons_append]

/-- Words that begin with no mark but a parenthesis, so no list ends in front of them. -/
def OpensItem (words : List Word) : Prop :=
  ∃ word more, words = word :: more ∧ ∀ text, text ≠ "(" → word.isMark text = false

theorem opensItem_name
    (text : String)
    (more : List Word) :
    OpensItem (.name text :: more) :=
  ⟨_, _, rfl, fun _ _ => Word.isMark_name _ _⟩

theorem IdlType.Expressible.opensItem
    {type : IdlType}
    (h : type.Expressible)
    (more : List Word) :
    OpensItem (type.words ++ more) := by
  obtain ⟨word, rest, hwords, hopens⟩ := h.exists_words
  rw [hwords]
  exact ⟨_, _, rfl, fun _ htext => hopens.isMark_eq htext⟩

theorem OpensItem.isMark_eq
    {words : List Word} {text : String}
    (h : OpensItem words)
    (htext : text ≠ "(")
    (more : List Word) :
    ((words ++ more).head?.any fun word => word.isMark text) = false := by
  obtain ⟨word, rest, rfl, hmark⟩ := h
  exact hmark text htext

/-! ## Types -/

namespace IdlType

theorem wordsAfter_eq
    (separator : Word)
    (types : List IdlType) :
    wordsAfter separator types = types.flatMap fun type => separator :: type.words := by
  induction types with
  | nil =>
      rfl
  | cons type more ih =>
      rw [wordsAfter, ih, List.flatMap_cons, List.cons_append]

theorem wordsOfRow_eq
    (separator : Word)
    (types : List IdlType) :
    wordsOfRow separator types = rowWords separator words types := by
  cases types with
  | nil =>
      rfl
  | cons type more =>
      rw [wordsOfRow, wordsAfter_eq, rowWords]

end IdlType

namespace Parser

section Named

variable {bound : Nat} {type : Parser IdlType} {word : Word} {more : List Word}

theorem reads_namedType
    {parts : List String}
    (h : IsTypeName parts)
    (hword : word.EndsPlainType) :
    Reads bound (namedType type) (parts.map Word.name) (.named (" ".intercalate parts))
      (word :: more) := by
  have hlong : Reads bound (eatWord "long") [] false (word :: more) :=
    reads_eatWord_of_not hword.notLong
  have hparameters : Reads bound (atMark "<") [] false (word :: more) :=
    reads_atMark_of false hword.notParameters
  unfold namedType
  cases h with
  | @plain name hname =>
      have hunsigned : name ≠ "unsigned" := hname.ne_of_mem_typeKeywords (by decide)
      have hunrestricted : name ≠ "unrestricted" := hname.ne_of_mem_typeKeywords (by decide)
      have hname' : name ≠ "long" := hname.ne_of_mem_typeKeywords (by decide)
      refine (reads_identifier hname.isScannable).step ?_
      simp only [beq_iff_eq, hunsigned, hunrestricted, hname', if_false]
      -- A name that takes parameters is read as it stands where no bracket follows.
      split
      · exact hparameters.peek (reads_pure _)
      · exact reads_pure _
  | long =>
      refine (reads_identifier (by decide)).step ?_
      exact hlong.peek (reads_pure _)
  | longLong =>
      refine (reads_identifier (by decide)).step ?_
      exact (reads_eatWord (by decide)).step (reads_pure _)
  | @unsigned name hname =>
      refine (reads_identifier (by decide)).step ?_
      refine (reads_identifier hname.isScannable).step ?_
      have hname' : name ≠ "long" := hname.ne_of_mem_typeKeywords (by decide)
      simp only [beq_iff_eq, hname', if_false]
      exact reads_pure _
  | unsignedLong =>
      refine (reads_identifier (by decide)).step ?_
      refine (reads_identifier (by decide)).step ?_
      exact hlong.peek (reads_pure _)
  | unsignedLongLong =>
      refine (reads_identifier (by decide)).step ?_
      refine (reads_identifier (by decide)).step ?_
      exact (reads_eatWord (by decide)).step (reads_pure _)
  | @unrestricted name hname =>
      refine (reads_identifier (by decide)).step ?_
      exact (reads_identifier hname.isScannable).step (reads_pure _)

/-- The words that are read between brackets and separators, if the types are read. -/
theorem reads_typeRow
    {separator : Parser Bool} {between stop : Word} {types : List IdlType}
    (hsome : types ≠ [])
    (hseparator : ∀ more, Reads bound separator [between] true more)
    (hstop : ∀ more, Reads bound separator [] false (stop :: more))
    (hends : between.EndsType ∧ stop.EndsType)
    (htype : ∀ item ∈ types, ∀ word : Word, word.EndsType → ∀ more,
      Reads bound type item.words item (word :: more)) :
    Reads bound (separated separator type) (rowWords between IdlType.words types) types
      (stop :: more) := by
  refine reads_separated hsome hseparator (hstop more) ?_
  intro item hitem word hword
  simp only [List.mem_cons, List.not_mem_nil, or_false] at hword
  rcases hword with rfl | rfl
  · exact htype item hitem _ hends.1
  · exact htype item hitem _ hends.2

theorem reads_typeParameters
    {types : List IdlType}
    (hsome : types ≠ [])
    (htype : ∀ item ∈ types, ∀ word : Word, word.EndsType → ∀ more,
      Reads bound type item.words item (word :: more)) :
    Reads bound (typeParameters type) (.mark "<" :: closedRowWords ">" IdlType.words types) types
      more := by
  have hrow : Reads bound (separated (eatMark ",") type) (rowWords (.mark ",") IdlType.words types)
      types ([.mark ">"] ++ more) :=
    reads_typeRow hsome (fun _ => reads_eatMark (by decide))
      (fun _ => reads_eatMark_of_not (by simp))
      ⟨Word.endsType_mark (by decide), Word.endsType_mark (by decide)⟩ htype
  refine (reads_expectMark (by decide)).step ?_
  exact hrow.bind ((reads_expectMark (by decide)).step (reads_pure types))

/-- Behind the name of a type with parameters there are fewer tokens. -/
theorem reads_namedType_generic
    {name : String} {args : List IdlType}
    (hname : name ∈ genericNames)
    (hsome : args ≠ [])
    (hargs : ∀ item ∈ args, ∀ word : Word, word.EndsType → ∀ more,
      Reads bound type item.words item (word :: more)) :
    Reads (bound + 1) (namedType type) (IdlType.generic name args).words (.generic name args)
      more := by
  have hscannable : ∀ name ∈ genericNames, (Word.name name).IsScannable := by
    decide
  have hplain : ∀ name ∈ genericNames,
      name ≠ "unsigned" ∧ name ≠ "unrestricted" ∧ name ≠ "long" := by
    decide
  obtain ⟨hunsigned, hunrestricted, hlong⟩ := hplain name hname
  rw [IdlType.words, IdlType.wordsOfRow_eq]
  refine (reads_identifier (hscannable name hname)).enter ?_
  simp only [beq_iff_eq, hunsigned, hunrestricted, hlong, if_false, List.contains_iff_mem, hname,
    if_true]
  refine (reads_atMark_of true (by simp)).peek ?_
  exact (reads_typeParameters hsome hargs).last (IdlType.generic name)

end Named

/-- Where no extended attributes stand, none are read. -/
theorem reads_no_attributes
    {bound : Nat} {next : List Word}
    (nested : Nested)
    (h : (next.head?.any fun word => word.isMark "[") = false) :
    Reads bound (attributes nested) [] [] next :=
  (reads_eatMark_of_not h).peek (reads_pure [])

end Parser

/-! ## Nesting -/

/-- A type, to which the null value is added or not. -/
def IdlType.orNull (type : IdlType) (given : Bool) : IdlType :=
  if given then nullable type else type

/-- The question mark that adds the null value to a type. -/
def questionWords (given : Bool) : List Word :=
  if given then [.mark "?"] else []

theorem exists_next_of_question
    {word : Word}
    (given : Bool)
    (hword : word.EndsPlainType)
    (more : List Word) :
    ∃ first rest, questionWords given ++ word :: more = first :: rest ∧ first.EndsPlainType := by
  cases given with
  | true =>
      exact ⟨.mark "?", word :: more, rfl, by simp, rfl⟩
  | false =>
      exact ⟨word, more, rfl, hword⟩

namespace Nested

open WebIdl.Parser

section Question

variable {bound : Nat} {nested : Nested} {given : Bool} {word : Word} {more : List Word}

theorem reads_question
    (type : IdlType)
    (hword : given = false → word.isMark "?" = false) :
    Reads bound (do if ← eatMark "?" then return .nullable type else return type)
      (questionWords given) (type.orNull given) (word :: more) := by
  cases given with
  | true =>
      exact (reads_eatMark (by decide)).step (reads_pure _)
  | false =>
      refine Reads.peek (reads_eatMark_of_not ?_) (reads_pure type)
      exact hword rfl

/-- A type that begins with a name, and a question mark or none. -/
theorem reads_type_of_name
    {text : String} {words : List Word} {type : IdlType}
    (hattributes : ∀ next : List Word, (next.head?.any fun word => word.isMark "[") = false →
      Reads bound nested.attributes [] [] next)
    (hnamed : ∀ word : Word, word.EndsPlainType → ∀ more,
      Reads bound (namedType nested.type) (.name text :: words) type (word :: more))
    (hword : word.EndsPlainType)
    (hquestion : given = false → word.isMark "?" = false) :
    Reads bound (Parser.type nested) (.name text :: words ++ questionWords given)
      (type.orNull given) (word :: more) := by
  obtain ⟨first, rest, hnext, hfirst⟩ := exists_next_of_question given hword more
  have hplain := hnamed first hfirst rest
  rw [← hnext] at hplain
  refine Reads.peek (hattributes _ ?_) ?_
  · exact Word.isMark_name _ _
  · refine Reads.peek (reads_eatMark_of_not ?_) ?_
    · exact Word.isMark_name _ _
    · exact hplain.bind (reads_question type hquestion)

/-- One of several types, and a question mark or none.  Behind the parenthesis there are fewer
tokens. -/
theorem reads_type_of_union
    {types : List IdlType}
    (hattributes : ∀ next : List Word, (next.head?.any fun word => word.isMark "[") = false →
      Reads (bound + 1) nested.attributes [] [] next)
    (hsome : types ≠ [])
    (htypes : ∀ item ∈ types, ∀ word : Word, word.EndsType → ∀ more,
      Reads bound nested.type item.words item (word :: more))
    (hquestion : given = false → word.isMark "?" = false) :
    Reads (bound + 1) (Parser.type nested) ((IdlType.union types).words ++ questionWords given)
      ((IdlType.union types).orNull given) (word :: more) := by
  have hrow : Reads bound (separated (eatWord "or") nested.type)
      (rowWords (.name "or") IdlType.words types) types
      (.mark ")" :: (questionWords given ++ word :: more)) :=
    reads_typeRow hsome (fun _ => reads_eatWord (by decide))
      (fun _ => reads_eatWord_of_not rfl)
      ⟨Word.endsType_name (by decide), Word.endsType_mark (by decide)⟩ htypes
  rw [IdlType.words, IdlType.wordsOfRow_eq, List.cons_append, List.append_assoc]
  refine Reads.peek (hattributes _ (by simp)) ?_
  refine (reads_eatMark (by decide)).enter ?_
  refine hrow.bind ?_
  exact (reads_expectMark (by decide)).step (reads_question _ hquestion)

end Question

theorem level_type
    (depth : Nat) :
    (level (depth + 1)).type =
      Parser.type ⟨(level depth).type, Parser.attributes (level depth)⟩ :=
  rfl

theorem level_attributes
    (depth : Nat) :
    (level (depth + 1)).attributes = Parser.attributes (level depth) :=
  rfl

/-- Nothing is read where no extended attributes stand. -/
theorem reads_level_no_attributes
    (bound depth : Nat)
    (next : List Word)
    (h : (next.head?.any fun word => word.isMark "[") = false) :
    Reads bound (Parser.attributes (level depth)) [] [] next :=
  reads_no_attributes _ h

theorem reads_of_orNull
    {bound : Nat} {parser : Parser IdlType} {type : IdlType}
    (h : ∀ word : Word, word.EndsPlainType → (false = false → word.isMark "?" = false) → ∀ more,
      Reads bound parser (type.words ++ questionWords false) (type.orNull false) (word :: more))
    (word : Word)
    (hword : word.EndsType)
    (more : List Word) :
    Reads bound parser type.words type (word :: more) := by
  have hread := h word hword.toEndsPlainType (fun _ => hword.notNullable) more
  rwa [questionWords, if_neg Bool.false_ne_true, List.append_nil] at hread

/-- The parser of types reads what is nested at a level.  A type without the null value is read
together with a question mark behind it, because its parser looks for one. -/
theorem reads_level_orNull
    {type : IdlType}
    (h : type.Expressible) :
    ∀ (bound : Nat) (given : Bool), (given = true → type.IsPlain) →
      ∀ word : Word, word.EndsPlainType → (given = false → word.isMark "?" = false) → ∀ more,
        Reads bound (level (bound + 1)).type (type.words ++ questionWords given)
          (type.orNull given) (word :: more) := by
  induction h with
  | @named parts hparts =>
      intro bound given _ word hword hquestion more
      obtain ⟨first, rest, hfirst, -⟩ := hparts.exists_words
      have hnamed : ∀ word : Word, word.EndsPlainType → ∀ more,
          Reads bound (namedType (level bound).type) (parts.map Word.name)
            (.named (" ".intercalate parts)) (word :: more) :=
        fun _ hword _ => reads_namedType hparts hword
      rw [IdlType.words, hparts.words_eq, level_type]
      rw [hfirst, List.map_cons] at hnamed ⊢
      exact reads_type_of_name (reads_level_no_attributes bound bound) hnamed hword hquestion
  | @generic name args hname hsome hargs ih =>
      intro bound given _ word hword hquestion more
      have hsucc : ∀ bound, Reads (bound + 1) (level (bound + 2)).type
          ((IdlType.generic name args).words ++ questionWords given)
          ((IdlType.generic name args).orNull given) (word :: more) := by
        intro bound
        have hnested := fun item hitem word hword more =>
          reads_of_orNull (ih item hitem bound false nofun) word hword more
        refine reads_type_of_name (reads_level_no_attributes (bound + 1) (bound + 1)) ?_ hword
          hquestion
        exact fun _ _ _ => reads_namedType_generic hname hsome hnested
      cases bound with
      | zero =>
          exact (hsucc 0).zero
      | succ bound =>
          exact hsucc bound
  | @union types hsome htypes ih =>
      intro bound given _ word _ hquestion more
      have hsucc : ∀ bound, Reads (bound + 1) (level (bound + 2)).type
          ((IdlType.union types).words ++ questionWords given)
          ((IdlType.union types).orNull given) (word :: more) := by
        intro bound
        have hnested := fun item hitem word hword more =>
          reads_of_orNull (ih item hitem bound false nofun) word hword more
        exact reads_type_of_union (reads_level_no_attributes (bound + 1) (bound + 1)) hsome hnested
          hquestion
      cases bound with
      | zero =>
          exact (hsucc 0).zero
      | succ bound =>
          exact hsucc bound
  | @nullable inner hplain hinner ih =>
      intro bound given hgiven word hword _ more
      cases given with
      | true =>
          exact absurd rfl (hgiven rfl inner)
      | false =>
          have hboth := ih bound true (fun _ => hplain) word hword nofun more
          rw [IdlType.words]
          rwa [← List.append_nil (inner.words ++ _)] at hboth

/-- A type is read up to a word that does not go on with it. -/
theorem reads_level_type
    {type : IdlType} {word : Word}
    (h : type.Expressible)
    (bound : Nat)
    (hword : word.EndsType)
    (more : List Word) :
    Reads bound (level (bound + 1)).type type.words type (word :: more) :=
  reads_of_orNull (reads_level_orNull h bound false nofun) word hword more

/-- The parsers of nested constructs read all types within a bound. -/
structure ReadsTypes (nested : Nested) (bound : Nat) : Prop where
  type : ∀ type : IdlType, type.Expressible → ∀ word : Word, word.EndsType → ∀ more,
    Reads bound nested.type type.words type (word :: more)
  noAttributes : ∀ next : List Word, (next.head?.any fun word => word.isMark "[") = false →
    Reads bound nested.attributes [] [] next

theorem readsTypes_level
    (bound : Nat) :
    (level (bound + 1)).ReadsTypes bound where
  type := fun _ htype _ hword more => reads_level_type htype bound hword more
  noAttributes := reads_level_no_attributes bound bound

end Nested

end WebIdl
end FeatureProbes
