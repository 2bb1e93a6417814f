import FeatureProbes.Proofs.WebIdl.Reading.Members

/-!
# Reading definitions

Definitions that have been written out are read back.  Only the lines are lost, because the text has
lines of its own.  What cannot be written does not come back: a number that is spelled as one of the
other kind is read as that kind.
-/

namespace FeatureProbes
namespace WebIdl

/-! ## The first words -/

theorem Member.IsShape.opensItem
    {member : Member}
    (h : member.IsShape) :
    OpensItem member.bodyWords := by
  cases h with
  | @attr name type special readonly hname htype hspecial =>
      cases special with
      | none =>
          cases readonly <;> exact opensItem_name _ _
      | some special =>
          exact opensItem_name _ _
  | @operation name type special readonly arguments hname htype hspecial harguments =>
      cases special with
      | none =>
          cases readonly with
          | false =>
              exact htype.opensItem _
          | true =>
              exact opensItem_name _ _
      | some special =>
          exact opensItem_name _ _
  | stringifier =>
      exact opensItem_name _ _
  | constructor harguments =>
      exact opensItem_name _ _
  | constant hname htype =>
      exact opensItem_name _ _
  | @iterable isAsync typeArgs arguments hsome htypes harguments =>
      cases isAsync <;> exact opensItem_name _ _
  | @collection kind readonly typeArgs hkind hsome htypes =>
      simp only [List.mem_cons, List.not_mem_nil, or_false] at hkind
      rcases hkind with rfl | rfl <;> cases readonly <;> exact opensItem_name _ _

theorem Member.IsField.opensItem
    {member : Member}
    (h : member.IsField) :
    OpensItem member.bodyWords := by
  cases h with
  | field hname htype =>
      exact htype.opensItem _

theorem Definition.IsShape.exists_words
    {d : Definition}
    (h : d.IsShape) :
    ∃ text more, d.bodyWords = .name text :: more := by
  cases h with
  | @interface name isPartial inheritance members hname hinheritance hmembers =>
      cases isPartial <;> exact ⟨_, _, rfl⟩
  | @mixin name isPartial members hname hmembers =>
      cases isPartial <;> exact ⟨_, _, rfl⟩
  | @nameSpace name isPartial members hname hmembers =>
      cases isPartial <;> exact ⟨_, _, rfl⟩
  | @dictionary name isPartial inheritance members hname hinheritance hmembers =>
      cases isPartial <;> exact ⟨_, _, rfl⟩
  | enumeration hname hvalues =>
      exact ⟨_, _, rfl⟩
  | typedef hname htype =>
      exact ⟨_, _, rfl⟩
  | callback hname htype harguments =>
      exact ⟨_, _, rfl⟩
  | callbackInterface hname hmembers =>
      exact ⟨_, _, rfl⟩
  | includes hname hmixin =>
      exact ⟨_, _, rfl⟩

theorem Definition.Expressible.words_ne_nil
    {d : Definition}
    (h : d.Expressible) :
    d.words ≠ [] := by
  obtain ⟨text, more, hwords⟩ := h.shape.exists_words
  have hbody : d.bodyWords = .name text :: more := hwords
  rw [Definition.words, hbody]
  exact List.append_ne_nil_of_right_ne_nil _ (List.cons_ne_nil _ _)

namespace Parser

variable {bound : Nat} {nested : Nested} {next : List Word}

/-! ## Blocks -/

/-- Every line is as good as any other. -/
theorem readsUpTo_here
    (line : UInt32) :
    ReadsUpTo (fun _ => ()) bound here [] line next := by
  refine ⟨by simp, ?_⟩
  intro tokens rest htokens hrest hbound
  rw [List.map_eq_nil_iff.1 htokens]
  exact ⟨_, rfl, rfl⟩

theorem reads_blockEnds :
    Reads bound blockEnds [] true (.mark "\x7d" :: next) :=
  Reads.peek (reads_atMark_of true (by simp)) (reads_pure true)

theorem reads_blockEnds_of_not
    {word : Word}
    (h : word.isMark "\x7d" = false) :
    Reads bound blockEnds [] false (word :: next) := by
  refine Reads.peek (reads_atMark_of false h) (readsUpTo_get fun state hstate => ?_)
  have hsome : state ≠ [] := by
    rintro rfl
    exact absurd hstate (by simp)
  rw [if_neg (by simpa using hsome)]
  exact reads_pure false

variable {item : Parser Member} {shape : Member → Prop}

/-- A parser of members reads all members of some shape. -/
structure ReadsShape
    (bound : Nat)
    (item : Parser Member)
    (shape : Member → Prop) : Prop where
  opens : ∀ m : Member, shape m → OpensItem m.bodyWords
  reads : ∀ m : Member, shape m → ∀ next, Reads bound item m.bodyWords m next

theorem readsShape_member
    (hnested : nested.ReadsTypes bound) :
    ReadsShape bound (member nested) Member.IsShape where
  opens := fun _ h => h.opensItem
  reads := fun _ h _ => reads_member hnested h

theorem readsShape_field
    (hnested : nested.ReadsTypes bound) :
    ReadsShape bound (field nested) Member.IsField where
  opens := fun _ h => h.opensItem
  reads := by
    intro m h next
    cases h with
    | field hname htype =>
        exact reads_field hnested hname htype

theorem readsUpTo_blockMember
    {m : Member}
    (hnested : nested.ReadsWithin bound)
    (hitem : ReadsShape bound item shape)
    (h : m.Expressible shape) :
    ReadsUpTo Member.unlined bound (blockMember nested item) m.words m next := by
  have hopens : OpensItem m.bodyWords := hitem.opens m.bare h.shape
  have hbody : Reads bound item m.bodyWords m.bare next := hitem.reads m.bare h.shape next
  refine Reads.bind (hnested.attributes _ h.attributes _ (hopens.isMark_eq (by decide) _)) ?_
  refine (readsUpTo_here m.line).peek fun line _ => ?_
  refine ReadsUpTo.last hbody fun found hfound => ?_
  obtain rfl : found = m.bare := hfound
  rfl

/-- A member with or without extended attributes does not begin with the mark that ends a block. -/
theorem exists_words_of_member
    {m : Member}
    (hitem : ReadsShape bound item shape)
    (h : m.Expressible shape) :
    ∃ word more, m.words = word :: more ∧ word.isMark "\x7d" = false := by
  obtain ⟨word, more, hwords, hmark⟩ : OpensItem m.bodyWords := hitem.opens m.bare h.shape
  rw [Member.words, attributesWords, hwords]
  cases m.attributes with
  | nil =>
      exact ⟨_, _, rfl, hmark _ (by decide)⟩
  | cons first rest =>
      exact ⟨_, _, rfl, by decide⟩

theorem readsUpTo_block
    {members : List Member}
    (hnested : nested.ReadsWithin bound)
    (hitem : ReadsShape bound item shape)
    (h : ∀ m ∈ members, m.Expressible shape) :
    ReadsUpTo (List.map Member.unlined) bound (block nested item) (blockWords members) members
      next := by
  have hmembers : ReadsUpTo (List.map Member.unlined) bound
      (itemsUntil blockEnds (blockMember nested item)) (members.flatMap Member.words) members
      ([.mark "\x7d", .mark ";"] ++ next) := by
    refine readsUpTo_itemsUntil reads_blockEnds ?_ ?_ ?_
    · intro m hm more
      obtain ⟨word, rest, hwords, hmark⟩ := exists_words_of_member hitem (h m hm)
      rw [hwords]
      exact reads_blockEnds_of_not hmark
    · intro m hm
      obtain ⟨word, rest, hwords, hmark⟩ := exists_words_of_member hitem (h m hm)
      rw [hwords]
      exact List.cons_ne_nil _ _
    · intro m hm more
      exact readsUpTo_blockMember hnested hitem (h m hm)
  refine (reads_expectMark (by decide)).step (hmembers.bind fun found hfound => ?_)
  refine (reads_expectMark (by decide)).step ?_
  exact (reads_expectMark (by decide)).step (readsUpTo_pure hfound)

/-! ## The bodies of definitions -/

theorem reads_inheritance
    {definition : Definition}
    (h : ∀ text, definition.inheritance = some text → IsName text)
    (hnext : (next.head?.any fun word => word.isMark ":") = false) :
    Reads bound inheritance definition.inheritanceWords definition.inheritance next := by
  unfold Definition.inheritanceWords
  cases hinheritance : definition.inheritance with
  | none =>
      exact Reads.peek (reads_eatMark_of_not hnext) (reads_pure none)
  | some text =>
      refine (reads_eatMark (by decide)).step ?_
      exact (reads_identifier (h text hinheritance).isScannable).last some

theorem reads_enumValues
    {values : List String}
    (h : ∀ value ∈ values, IsQuotable value) :
    Reads bound enumValues
      (.mark "\x7b" :: (closedRowWords "\x7d" (fun value => [.string value]) values ++ [.mark ";"]))
      values next := by
  have hvalues : Reads bound (commaList "\x7d" stringValue)
      (closedRowWords "\x7d" (fun value => [.string value]) values) values ([.mark ";"] ++ next) :=
    reads_commaList (by decide) (by decide) (fun _ _ _ => Word.isMark_string _ _)
      fun value hvalue _ _ _ => reads_stringValue (h value hvalue)
  refine (reads_expectMark (by decide)).step (hvalues.bind ?_)
  exact (reads_expectMark (by decide)).step (reads_pure values)

theorem readsUpTo_plainBody
    {kind : DefinitionKind} {name : String} {members : List Member}
    (hnested : nested.ReadsWithin bound)
    (hname : IsName name)
    (h : ∀ m ∈ members, m.Expressible Member.IsShape) :
    ReadsUpTo Definition.unlined bound (plainBody nested kind) (.name name :: blockWords members)
      { Definition.ofKind kind name with members := members } next := by
  refine (reads_identifier hname.isScannable).step ?_
  have hitem := readsShape_member hnested.toReadsTypes
  refine (readsUpTo_block hnested hitem h).last fun found hfound => ?_
  simp only [Definition.unlined, hfound]

theorem readsUpTo_inheritingBody
    {kind : DefinitionKind} {name : String} {inheritance : Option String} {members : List Member}
    (hnested : nested.ReadsWithin bound)
    (hitem : ReadsShape bound item shape)
    (hname : IsName name)
    (hinheritance : ∀ text, inheritance = some text → IsName text)
    (h : ∀ m ∈ members, m.Expressible shape) :
    ReadsUpTo Definition.unlined bound (inheritingBody nested kind item)
      (.name name ::
        ({ Definition.ofKind kind name with inheritance := inheritance }.inheritanceWords ++
          blockWords members))
      { Definition.ofKind kind name with inheritance := inheritance, members := members } next := by
  refine (reads_identifier hname.isScannable).step ?_
  refine Reads.bind (reads_inheritance hinheritance (by simp [blockWords])) ?_
  refine (readsUpTo_block hnested hitem h).last fun found hfound => ?_
  simp only [Definition.unlined, hfound]

theorem reads_callbackFunction
    {name : String} {type : IdlType} {arguments : List Argument}
    (hnested : nested.ReadsTypes bound)
    (hname : IsName name)
    (htype : type.Expressible)
    (h : ∀ argument ∈ arguments, argument.Expressible) :
    Reads bound (callbackFunction nested)
      (.name name :: .mark "=" :: (type.words ++ (argumentsWords arguments ++ [.mark ";"])))
      { Definition.ofKind .callback name with type := some type, arguments := arguments } next := by
  have hend : (Word.mark "(").EndsType := Word.endsType_mark (by decide)
  refine (reads_identifier hname.isScannable).step ?_
  refine (reads_expectMark (by decide)).step ?_
  refine Reads.bind (hnested.type type htype (.mark "(") hend _) ?_
  refine Reads.bind (reads_arguments hnested h) ?_
  exact (reads_expectMark (by decide)).step (reads_pure _)

theorem reads_typedefinition
    {name : String} {type : IdlType}
    (hnested : nested.ReadsTypes bound)
    (hname : IsName name)
    (htype : type.Expressible) :
    Reads bound (typedefinition nested) (type.words ++ [.name name, .mark ";"])
      { Definition.ofKind .typedef name with type := some type } next := by
  refine Reads.bind (hnested.type type htype (.name name) hname.endsType _) ?_
  refine (reads_identifier hname.isScannable).step ?_
  exact (reads_expectMark (by decide)).step (reads_pure _)

theorem reads_inclusion
    {name mixin : String}
    (hname : IsName name)
    (hmixin : IsName mixin) :
    Reads bound inclusion [.name name, .name "includes", .name mixin, .mark ";"]
      { Definition.ofKind .includes name with included := some mixin } next := by
  refine (reads_identifier hname.isScannable).step ?_
  refine (reads_skip (by decide)).step ?_
  refine (reads_identifier hmixin.isScannable).step ?_
  exact (reads_expectMark (by decide)).step (reads_pure _)

/-! ## Definitions -/

theorem ReadsUpTo.some
    {parser : Parser Definition} {words : List Word} {d : Definition}
    (h : ReadsUpTo Definition.unlined bound parser words d next) :
    ReadsUpTo (Option.map Definition.unlined) bound (Option.some <$> parser) words (Option.some d)
      next := by
  rw [← bind_pure_comp]
  exact h.last fun found hfound => congrArg Option.some hfound

theorem reads_extensible_none
    (h : FreeOf ["interface", "namespace", "dictionary"] next) :
    Reads bound (extensible? nested) [] none next := by
  refine Reads.peek (reads_eatWord_of_not (h _ (by decide))) ?_
  refine Reads.peek (reads_eatWord_of_not (h _ (by decide))) ?_
  exact Reads.peek (reads_eatWord_of_not (h _ (by decide))) (reads_pure none)

/-- A definition that may be partial. -/
theorem readsUpTo_definitionBody_of_extensible
    {text : String} {words : List Word} {d : Definition}
    (htext : text ∈ ["interface", "namespace", "dictionary"])
    (h : ReadsUpTo (Option.map Definition.unlined) bound (extensible? nested)
      (.name text :: words) (some { d with isPartial := false }) next) :
    ReadsUpTo Definition.unlined bound (definitionBody nested)
      (optionalWord d.isPartial "partial" ++ .name text :: words) d next := by
  have hothers : ∀ text ∈ ["interface", "namespace", "dictionary"],
      ∀ other ∈ ["callback", "partial"], (Word.name text).isWord other = false := by
    decide
  have hfree : FreeOf ["callback", "partial"] (.name text :: words ++ next) :=
    freeOf_cons (hothers text htext)
  have hcallback : FreeOf ["callback"]
      (optionalWord d.isPartial "partial" ++ .name text :: words ++ next) := by
    cases d.isPartial with
    | false =>
        exact hfree.subset (by decide)
    | true =>
        exact freeOf_cons (by decide)
  refine Reads.peek (reads_eatWord_of_not (hcallback _ (by decide))) ?_
  refine Reads.bind (reads_optionalWord (by decide) (hfree _ (by decide))) ?_
  refine h.finish fun found hfound => ?_
  cases found with
  | none =>
      cases hfound
  | some found =>
      have hsame : found.unlined = { d with isPartial := false }.unlined :=
        Option.some.inj hfound
      exact readsUpTo_pure
        (congrArg (fun other : Definition => { other with isPartial := d.isPartial }) hsame)

theorem readsUpTo_definitionBody_of_inextensible
    {text : String} {words : List Word} {d : Definition}
    (htext : text ∉ ["callback", "partial", "interface", "namespace", "dictionary"])
    (h : Reads bound (inextensible nested) (.name text :: words) d next) :
    ReadsUpTo Definition.unlined bound (definitionBody nested) (.name text :: words) d next := by
  have hfree : FreeOf ["callback", "partial", "interface", "namespace", "dictionary"]
      (.name text :: words ++ next) := by
    refine freeOf_cons fun other hother => ?_
    rw [Word.isWord_name, beq_eq_false_iff_ne]
    rintro rfl
    exact htext hother
  refine Reads.peek (reads_eatWord_of_not (hfree _ (by decide))) ?_
  refine Reads.peek (reads_eatWord_of_not (hfree _ (by decide))) ?_
  exact Reads.peek (reads_extensible_none (hfree.subset (by decide))) (h.upTo _)

/-- No shape of a definition is taken for another one. -/
theorem readsUpTo_definitionBody
    {d : Definition}
    (hnested : nested.ReadsWithin bound)
    (h : d.IsShape) :
    ReadsUpTo Definition.unlined bound (definitionBody nested) d.bodyWords d next := by
  have hmember := readsShape_member hnested.toReadsTypes
  have hfield := readsShape_field hnested.toReadsTypes
  cases h with
  | interface hname hinheritance hmembers =>
      refine readsUpTo_definitionBody_of_extensible (by decide) ?_
      refine (reads_eatWord (by decide)).step ?_
      refine Reads.peek (reads_eatWord_of_not (hname.isWord_eq (by decide))) ?_
      exact (readsUpTo_inheritingBody hnested hmember hname hinheritance hmembers).some
  | mixin hname hmembers =>
      refine readsUpTo_definitionBody_of_extensible (by decide) ?_
      refine (reads_eatWord (by decide)).step ?_
      refine (reads_eatWord (by decide)).step ?_
      exact (readsUpTo_plainBody hnested hname hmembers).some
  | nameSpace hname hmembers =>
      refine readsUpTo_definitionBody_of_extensible (by decide) ?_
      refine Reads.peek (reads_eatWord_of_not (by simp)) ?_
      refine (reads_eatWord (by decide)).step ?_
      exact (readsUpTo_plainBody hnested hname hmembers).some
  | dictionary hname hinheritance hmembers =>
      refine readsUpTo_definitionBody_of_extensible (by decide) ?_
      refine Reads.peek (reads_eatWord_of_not (by simp)) ?_
      refine Reads.peek (reads_eatWord_of_not (by simp)) ?_
      refine (reads_eatWord (by decide)).step ?_
      exact (readsUpTo_inheritingBody hnested hfield hname hinheritance hmembers).some
  | enumeration hname hvalues =>
      refine readsUpTo_definitionBody_of_inextensible (by decide) ?_
      refine (reads_eatWord (by decide)).step ?_
      refine (reads_identifier hname.isScannable).step ?_
      exact (reads_enumValues hvalues).last _
  | typedef hname htype =>
      refine readsUpTo_definitionBody_of_inextensible (by decide) ?_
      refine Reads.peek (reads_eatWord_of_not (by simp)) ?_
      exact (reads_eatWord (by decide)).step (reads_typedefinition hnested.toReadsTypes hname htype)
  | callback hname htype harguments =>
      refine (reads_eatWord (by decide)).step ?_
      refine Reads.peek (reads_eatWord_of_not (hname.isWord_eq (by decide))) ?_
      exact (reads_callbackFunction hnested.toReadsTypes hname htype harguments).upTo _
  | callbackInterface hname hmembers =>
      refine (reads_eatWord (by decide)).step ?_
      refine (reads_eatWord (by decide)).step ?_
      exact readsUpTo_plainBody hnested hname hmembers
  | includes hname hmixin =>
      have hkeywords : ["callback", "partial", "interface", "namespace", "dictionary"] ⊆
          keywords := by
        decide
      refine readsUpTo_definitionBody_of_inextensible (fun hmem => hname.2.2.1 (hkeywords hmem)) ?_
      refine Reads.peek (reads_eatWord_of_not (hname.isWord_eq (by decide))) ?_
      refine Reads.peek (reads_eatWord_of_not (hname.isWord_eq (by decide))) ?_
      refine Reads.peek reads_atName ?_
      refine Reads.peek (reads_nextIsWord "includes") ?_
      exact reads_inclusion hname hmixin

theorem readsUpTo_definition
    {d : Definition}
    (hnested : nested.ReadsWithin bound)
    (h : d.Expressible) :
    ReadsUpTo Definition.unlined bound (definition nested) d.words d next := by
  obtain ⟨text, more, hwords⟩ := h.shape.exists_words
  have hbody : ReadsUpTo Definition.unlined bound (definitionBody nested) d.bodyWords d.bare next :=
    readsUpTo_definitionBody hnested h.shape
  have hopen : ((d.bodyWords ++ next).head?.any fun word => word.isMark "[") = false := by
    rw [show d.bodyWords = .name text :: more from hwords]
    exact Word.isMark_name _ _
  refine Reads.bind (hnested.attributes _ h.attributes _ hopen) ?_
  refine (readsUpTo_here d.line).peek fun line _ => ?_
  refine hbody.last fun found hfound => ?_
  exact congrArg (fun other : Definition => { other with attributes := d.attributes }) hfound

/-- Definitions are read up to the end of the text. -/
theorem readsUpTo_definitions
    {definitions : List Definition}
    (hnested : nested.ReadsWithin bound)
    (h : ∀ d ∈ definitions, d.Expressible) :
    ReadsUpTo (List.map Definition.unlined) bound (Parser.definitions nested)
      (definitions.flatMap Definition.words) definitions [] := by
  refine readsUpTo_itemsUntil ?_ ?_ ?_ ?_
  · refine reads_look fun rest hrest => ?_
    rw [List.map_eq_nil_iff.1 hrest]
    rfl
  · intro d hd more
    refine reads_look fun rest hrest => ?_
    rw [List.isEmpty_eq_false_iff]
    rintro rfl
    have hnil := List.append_eq_nil_iff.1 hrest.symm
    exact (h d hd).words_ne_nil hnil.1
  · intro d hd
    exact (h d hd).words_ne_nil
  · intro d hd more
    exact readsUpTo_definition hnested (h d hd)

end Parser

/-- What can be written is read back, up to the lines. -/
theorem parse_written
    {definitions : List Definition}
    (h : ∀ definition ∈ definitions, definition.Expressible) :
    ∃ read, parse (written definitions) = .ok read ∧
      read.map Definition.unlined = definitions.map Definition.unlined := by
  have hreads : ∀ bound, Parser.ReadsUpTo (List.map Definition.unlined) bound
      (Parser.definitions (Nested.level (bound + 1))) (definitions.flatMap Definition.words)
      definitions [] :=
    fun bound => Parser.readsUpTo_definitions (Nested.readsWithin_level bound) h
  -- Which words are scannable does not depend on the bound; the tokens give the bound to read with.
  obtain ⟨found, last, htokens, hfound⟩ := tokens_textOf (hreads 0).scannable
  obtain ⟨read, hread, hview⟩ := (hreads found.length).run found [] hfound rfl (by simp)
  have hdefinitions : definitionsOfTokens found = .ok read := by
    rw [List.append_nil] at hread
    rw [definitionsOfTokens, hread]
    rfl
  refine ⟨read, ?_, hview⟩
  rw [parse, written, htokens]
  simp only [hdefinitions]

/-- A partial interface whose members have several shapes. -/
def chart : Definition :=
  { Definition.ofKind .interface "Chart" with
    isPartial := true
    inheritance := some "Frame"
    members :=
      [{ Member.ofKind .attr (some "parts") with
          readonly := true
          type := some (.nullable
            (.union [.named "unsigned long", .generic "sequence" [.named "Part"]]))
          attributes := [⟨"SameObject", none, []⟩]
          line := 4 },
        { Member.ofKind .operation none with
          special := some .getter
          type := some (.named "Part")
          arguments := [⟨"index", .named "long", true, false⟩] },
        { Member.ofKind .operation none with special := some .stringifier },
        { Member.ofKind .iterable none with isAsync := true, typeArgs := [.named "Part"] }]
    attributes := [⟨"Exposed", some (.identifierList ["Window", "Worker"]), []⟩]
    line := 2 }

theorem chart_expressible : chart.Expressible := by
  have hpart : (IdlType.named "Part").Expressible := .named (.plain (by decide))
  have hunsigned : (IdlType.named "unsigned long").Expressible := .named .unsignedLong
  have hlong : (IdlType.named "long").Expressible := .named .long
  have hparts : (IdlType.generic "sequence" [.named "Part"]).Expressible :=
    .generic (by decide) (by simp) (by simpa using hpart)
  have hunion : (IdlType.union
      [.named "unsigned long", .generic "sequence" [.named "Part"]]).Expressible :=
    .union (by simp) (by simpa using ⟨hunsigned, hparts⟩)
  have hnone : ∀ item ∈ ([] : List ExtendedAttribute), item.Expressible := List.forall_mem_nil _
  refine ⟨.interface (by decide) ?_ ?_, ?_⟩
  · rintro text ⟨⟩
    decide
  · simp only [chart, List.forall_mem_cons]
    refine ⟨⟨?_, ?_⟩, ⟨?_, hnone⟩, ⟨?_, hnone⟩, ⟨?_, hnone⟩, List.forall_mem_nil _⟩
    · exact .attr (by decide) (.nullable nofun hunion) (by decide)
    · simp only [List.forall_mem_cons]
      exact ⟨⟨by decide, nofun, List.forall_mem_nil _⟩, List.forall_mem_nil _⟩
    · refine .operation nofun hpart nofun ?_
      simp only [List.forall_mem_cons]
      exact ⟨⟨by decide, hlong⟩, List.forall_mem_nil _⟩
    · exact .stringifier
    · exact .iterable (by simp) (by simpa using hpart) (List.forall_mem_nil _)
  · simp only [chart, List.forall_mem_cons]
    refine ⟨⟨by decide, ?_, List.forall_mem_nil _⟩, List.forall_mem_nil _⟩
    rintro value ⟨⟩
    exact .identifierList (by decide)

/-- Definitions of several kinds. -/
def gallery : List Definition :=
  [chart,
    { Definition.ofKind .dictionary "Options" with
      members := [{ Member.ofKind .field (some "speed") with
        type := some (.named "unrestricted double") }] },
    { Definition.ofKind .enumeration "Shade" with values := ["light", "dark"] },
    { Definition.ofKind .includes "Chart" with included := some "Printable" }]

/-- The gallery can be written, and is read back. -/
theorem parse_gallery :
    (∀ definition ∈ gallery, definition.Expressible) ∧
      ∃ read, parse (written gallery) = .ok read ∧
        read.map Definition.unlined = gallery.map Definition.unlined := by
  have hparts : IsTypeName ["unrestricted", "double"] := .unrestricted (by decide)
  have hdouble : (IdlType.named "unrestricted double").Expressible := .named hparts
  have hnone : ∀ item ∈ ([] : List ExtendedAttribute), item.Expressible := List.forall_mem_nil _
  have h : ∀ definition ∈ gallery, definition.Expressible := by
    simp only [gallery, List.forall_mem_cons]
    refine ⟨chart_expressible, ⟨?_, hnone⟩, ⟨?_, hnone⟩, ⟨?_, hnone⟩, List.forall_mem_nil _⟩
    · refine .dictionary (by decide) nofun ?_
      simp only [List.forall_mem_cons]
      exact ⟨⟨.field (by decide) hdouble, hnone⟩, List.forall_mem_nil _⟩
    · exact .enumeration (by decide) (by decide)
    · exact .includes (by decide) (by decide)
  exact ⟨h, parse_written h⟩

/-- An interface whose only extended attribute has the given right-hand side. -/
def labelled (value : AttributeValue) : Definition :=
  { Definition.ofKind .interface "A" with attributes := [⟨"X", some value, []⟩] }

/-- The right-hand sides that the text of such an interface is read as. -/
def valuesRead (value : AttributeValue) : Option (List (List (Option AttributeValue))) :=
  (parse (written [labelled value])).toOption.map fun definitions =>
    definitions.map fun definition => definition.attributes.map ExtendedAttribute.value

theorem not_readBack_of_valuesRead
    {value : AttributeValue}
    (h : valuesRead value ≠ some [[some value]]) :
    ¬∃ read, parse (written [labelled value]) = .ok read ∧
      read.map Definition.unlined = [labelled value].map Definition.unlined := by
  rintro ⟨read, hread, hview⟩
  refine h ?_
  have hvalues := congrArg (List.map fun definition : Definition =>
    definition.attributes.map ExtendedAttribute.value) hview
  rw [List.map_map, List.map_map] at hvalues
  rw [valuesRead, hread]
  exact congrArg some hvalues

/-- The spelling of a number says which kind it is, so a decimal that is spelled as an integer comes
back as one.  A point at the front of a number does not count. -/
theorem parse_decimals :
    (¬∃ read, parse (written [labelled (.decimal "1")]) = .ok read ∧
        read.map Definition.unlined = [labelled (.decimal "1")].map Definition.unlined) ∧
      ¬∃ read, parse (written [labelled (.decimal ".5")]) = .ok read ∧
        read.map Definition.unlined = [labelled (.decimal ".5")].map Definition.unlined := by
  have hone : valuesRead (.decimal "1") = some [[some (.integer "1")]] := by
    decide +kernel
  have hhalf : valuesRead (.decimal ".5") = some [[some (.integer ".5")]] := by
    decide +kernel
  refine ⟨not_readBack_of_valuesRead ?_, not_readBack_of_valuesRead ?_⟩
  · rw [hone]
    decide
  · rw [hhalf]
    decide

end WebIdl
end FeatureProbes
