import FeatureProbes.Proofs.WebIdl.Reading.Types

/-!
# Reading arguments and extended attributes

Arguments have types, and extended attributes have arguments.  Once both are read back, so are all
constructs that contain each other, at a level that the number of tokens gives.
-/

namespace FeatureProbes
namespace WebIdl

/-! ## Arguments -/

theorem Argument.Expressible.opensItem
    {argument : Argument}
    (h : argument.Expressible) :
    OpensItem argument.words := by
  rw [Argument.words]
  cases argument.optional with
  | true =>
      exact opensItem_name _ _
  | false =>
      exact h.type.opensItem _

namespace Parser

variable {bound : Nat} {nested : Nested} {next : List Word}

theorem reads_argument
    {argument : Argument}
    (hnested : nested.ReadsTypes bound)
    (h : argument.Expressible)
    {stop : String}
    (hstop : stop ∈ [",", ")"])
    (more : List Word) :
    Reads bound (Parser.argument nested) argument.words argument (.mark stop :: more) := by
  obtain ⟨first, others, htype, hopens⟩ := h.type.exists_words
  obtain ⟨name, type, optional, variadic⟩ := argument
  have hname := h.name
  have hequals : stop ≠ "=" := by
    rintro rfl
    exact absurd hstop (by decide)
  unfold Parser.argument
  refine Reads.peek (hnested.noAttributes _ (h.opensItem.isMark_eq (by decide) _)) ?_
  rw [Argument.words]
  refine Reads.bind (reads_optionalWord (by decide) ?_) ?_
  · rw [htype]
    exact hopens.isWord_eq (by decide)
  · cases variadic with
    | true =>
        refine Reads.bind (hnested.type type h.type .ellipsis Word.endsType_ellipsis _) ?_
        refine Reads.peek (reads_atKind_of true rfl) ?_
        refine (reads_skip (by decide)).step ?_
        refine (reads_identifier hname.isScannable).step ?_
        refine Reads.peek (reads_eatMark_of_not (by simpa using hequals)) ?_
        exact reads_pure _
    | false =>
        refine Reads.bind (hnested.type type h.type (.name name) hname.endsType _) ?_
        refine Reads.peek (reads_atKind_of false rfl) ?_
        refine (reads_identifier hname.isScannable).step ?_
        refine Reads.peek (reads_eatMark_of_not (by simpa using hequals)) ?_
        exact reads_pure _

theorem reads_arguments
    {arguments : List Argument}
    (hnested : nested.ReadsTypes bound)
    (h : ∀ argument ∈ arguments, argument.Expressible) :
    Reads bound (Parser.arguments nested) (argumentsWords arguments) arguments next := by
  refine (reads_expectMark (by decide)).step ?_
  refine reads_commaList (by decide) (by decide) ?_ ?_
  · intro argument hargument more
    exact (h argument hargument).opensItem.isMark_eq (by decide) more
  · intro argument hargument word hword more
    simp only [List.mem_cons, List.not_mem_nil, or_false] at hword
    rcases hword with rfl | rfl
    · exact reads_argument hnested (h argument hargument) (by decide) more
    · exact reads_argument hnested (h argument hargument) (by decide) more

/-! ## Extended attributes -/

theorem reads_listedName
    {text : String}
    (h : IsName text) :
    Reads bound listedName [.name text] text next := by
  refine reads_one h.isScannable ?_
  rintro ⟨kind, _, line⟩ rest hword
  cases hword
  rfl

theorem reads_listedString
    {text : String}
    (h : IsQuotable text) :
    Reads bound listedString [.string text] text next := by
  refine reads_one h ?_
  rintro ⟨kind, _, line⟩ rest hword
  cases hword
  rfl

/-- A list of names, which may be empty, behind its parenthesis. -/
theorem reads_valueList_names
    {names : List String}
    (h : ∀ name ∈ names, IsName name) :
    Reads bound valueList (closedRowWords ")" (fun name => [.name name]) names)
      (.identifierList names) next := by
  have hlist : Reads bound (commaList ")" listedName)
      (closedRowWords ")" (fun name => [.name name]) names) names next :=
    reads_commaList (by decide) (by decide) (fun _ _ _ => Word.isMark_name _ _)
      fun name hname _ _ _ => reads_listedName (h name hname)
  refine Reads.peek (reads_atKind_of false ?_) (hlist.last _)
  cases names with
  | nil =>
      rfl
  | cons first rest =>
      rfl

theorem reads_valueList_strings
    {values : List String}
    (hsome : values ≠ [])
    (h : ∀ value ∈ values, IsQuotable value) :
    Reads bound valueList (closedRowWords ")" (fun value => [.string value]) values)
      (.stringList values) next := by
  have hlist : Reads bound (commaList ")" listedString)
      (closedRowWords ")" (fun value => [.string value]) values) values next :=
    reads_commaList (by decide) (by decide) (fun _ _ _ => Word.isMark_string _ _)
      fun value hvalue _ _ _ => reads_listedString (h value hvalue)
  refine Reads.peek (reads_atKind_of true ?_) (hlist.last _)
  cases values with
  | nil =>
      exact absurd rfl hsome
  | cons first rest =>
      rfl

/-- A right-hand side of one word that is no mark. -/
theorem reads_attributeValue_of_plain
    {name : String} {word : Word} {value : AttributeValue}
    (hmark : ∀ mark, word.isMark mark = false)
    (h : Reads bound (plainValue name) [word] value next) :
    Reads bound (attributeValue name) [word] value next := by
  refine Reads.peek (reads_eatMark_of_not (hmark "*")) ?_
  exact Reads.peek (reads_eatMark_of_not (hmark "(")) h

theorem reads_attributeValue
    {value : AttributeValue}
    (h : value.Expressible)
    (name : String) :
    Reads bound (attributeValue name) value.words value next := by
  cases h with
  | identifier hname =>
      refine reads_attributeValue_of_plain (Word.isMark_name _) (reads_one hname.isScannable ?_)
      rintro ⟨kind, _, line⟩ rest hword
      cases hword
      rfl
  | identifierList hnames =>
      refine Reads.peek (reads_eatMark_of_not rfl) ?_
      exact (reads_eatMark (by decide)).step (reads_valueList_names hnames)
  | wildcard =>
      exact (reads_eatMark (by decide)).step (reads_pure _)
  | integer hspelling =>
      refine reads_attributeValue_of_plain (Word.isMark_integer _)
        (reads_one hspelling.scansNumber ?_)
      rintro ⟨kind, _, line⟩ rest hword
      cases hword
      rfl
  | decimal hspelling =>
      refine reads_attributeValue_of_plain (Word.isMark_decimal _)
        (reads_one hspelling.scansNumber ?_)
      rintro ⟨kind, _, line⟩ rest hword
      cases hword
      rfl
  | string hvalue =>
      refine reads_attributeValue_of_plain (Word.isMark_string _) (reads_one hvalue ?_)
      rintro ⟨kind, _, line⟩ rest hword
      cases hword
      rfl
  | stringList hsome hvalues =>
      refine Reads.peek (reads_eatMark_of_not rfl) ?_
      exact (reads_eatMark (by decide)).step (reads_valueList_strings hsome hvalues)

/-- Arguments that are written as nothing if there are none, and what goes on with them. -/
theorem reads_arguments_if
    {β γ : Type} {view : β → γ} {after : List Argument → Parser β} {arguments : List Argument}
    {words : List Word} {result : β}
    (hnested : nested.ReadsTypes bound)
    (h : ∀ argument ∈ arguments, argument.Expressible)
    (hwords : ((words ++ next).head?.any fun word => word.isMark "(") = false)
    (hafter : ReadsUpTo view bound (after arguments) words result next) :
    ReadsUpTo view bound
      (do if ← atMark "(" then after (← Parser.arguments nested) else after (← pure []))
      ((if arguments.isEmpty then [] else argumentsWords arguments) ++ words) result next := by
  cases arguments with
  | nil =>
      exact Reads.peek (reads_atMark_of false hwords) (Reads.peek (reads_pure []) hafter)
  | cons first rest =>
      exact Reads.peek (reads_atMark_of true rfl) ((reads_arguments hnested h).bind hafter)

theorem reads_extendedAttribute
    {item : ExtendedAttribute} {stop : String}
    (hnested : nested.ReadsTypes bound)
    (h : item.Expressible)
    (hstop : stop ∈ [",", "]"])
    (more : List Word) :
    Reads bound (extendedAttribute nested) item.words item (.mark stop :: more) := by
  obtain ⟨name, value, arguments⟩ := item
  have hclosed : stop ≠ "=" ∧ stop ≠ "(" := by
    constructor <;> rintro rfl <;> exact absurd hstop (by decide)
  have hopen : (([] ++ Word.mark stop :: more).head?.any fun word : Word => word.isMark "(") =
      false := by
    simpa using hclosed.2
  have harguments : ∀ argument ∈ arguments, argument.Expressible := h.arguments
  have hrest : ∀ value : Option AttributeValue, Reads bound
      (do
        if ← atMark "(" then return ⟨name, value, ← Parser.arguments nested⟩
        else return ⟨name, value, ← pure []⟩)
      (if arguments.isEmpty then [] else argumentsWords arguments)
      (ExtendedAttribute.mk name value arguments) (.mark stop :: more) := by
    intro value
    rw [← List.append_nil (if arguments.isEmpty then [] else argumentsWords arguments)]
    exact reads_arguments_if hnested harguments hopen (reads_pure _)
  refine (reads_identifier h.name.isScannable).step ?_
  cases value with
  | none =>
      refine Reads.peek (reads_eatMark_of_not ?_) (Reads.peek (reads_pure none) (hrest none))
      cases arguments with
      | nil =>
          simpa using hclosed.1
      | cons first rest =>
          rfl
  | some value =>
      refine (reads_eatMark (by decide)).step ?_
      exact Reads.bind ((reads_attributeValue (h.value value rfl) name).map some)
        (hrest (some value))

/-- Extended attributes in brackets, behind the first of which there are fewer tokens. -/
theorem reads_attributes
    {items : List ExtendedAttribute}
    (hnested : nested.ReadsTypes bound)
    (hsome : items ≠ [])
    (h : ∀ item ∈ items, item.Expressible) :
    Reads (bound + 1) (attributes nested) (attributesWords items) items next := by
  have hrow : Reads bound (separated (eatMark ",") (extendedAttribute nested))
      (rowWords (.mark ",") ExtendedAttribute.words items) items ([.mark "]"] ++ next) := by
    refine reads_separated hsome (fun _ => reads_eatMark (by decide))
      (reads_eatMark_of_not (by simp)) ?_
    intro item hitem word hword more
    simp only [List.mem_cons, List.not_mem_nil, or_false] at hword
    rcases hword with rfl | rfl
    · exact reads_extendedAttribute hnested (h item hitem) (by decide) more
    · exact reads_extendedAttribute hnested (h item hitem) (by decide) more
  have hwords : attributesWords items =
      .mark "[" :: closedRowWords "]" ExtendedAttribute.words items := by
    rw [attributesWords, if_neg (by simpa using hsome)]
  rw [hwords]
  refine (reads_eatMark (by decide)).enter ?_
  exact hrow.bind ((reads_expectMark (by decide)).step (reads_pure items))

end Parser

namespace Nested

open WebIdl.Parser

/-- The parsers of nested constructs read all types and all extended attributes within a bound. -/
structure ReadsWithin (nested : Nested) (bound : Nat) : Prop extends nested.ReadsTypes bound where
  attributes : ∀ items : List ExtendedAttribute, (∀ item ∈ items, item.Expressible) →
    ∀ next : List Word, (next.head?.any fun word => word.isMark "[") = false →
      Reads bound nested.attributes (attributesWords items) items next

theorem reads_level_attributes
    {items : List ExtendedAttribute} {next : List Word}
    (bound : Nat)
    (h : ∀ item ∈ items, item.Expressible)
    (hnext : (next.head?.any fun word => word.isMark "[") = false) :
    Reads bound (level (bound + 1)).attributes (attributesWords items) items next := by
  rw [level_attributes]
  cases items with
  | nil =>
      exact reads_no_attributes _ hnext
  | cons first rest =>
      have hsucc : ∀ bound, Reads (bound + 1) (Parser.attributes (level (bound + 1)))
          (attributesWords (first :: rest)) (first :: rest) next :=
        fun bound => reads_attributes (readsTypes_level bound) (List.cons_ne_nil _ _) h
      cases bound with
      | zero =>
          exact (hsucc 0).zero
      | succ bound =>
          exact hsucc bound

theorem readsWithin_level
    (bound : Nat) :
    (level (bound + 1)).ReadsWithin bound where
  toReadsTypes := readsTypes_level bound
  attributes := fun _ h _ hnext => reads_level_attributes bound h hnext

end Nested

end WebIdl
end FeatureProbes
