import FeatureProbes.Proofs.WebIdl.Reading.Layout
import FeatureProbes.Proofs.WebIdl.Reading.Progress

/-!
# Reading comes to an end

Readers of members and of definitions take tokens as the readers of types do.  So no loop and no
construct inside another one runs out of rounds or levels, and every text is read to its end or up
to the token that does not fit, wherever it breaks off.
-/

namespace FeatureProbes
namespace WebIdl
namespace Parser

variable {bound : Nat} {nested nested' : Nested}

/-! ## Members -/

theorem advanceAlike_field
    (h : nested.Alike bound nested') :
    AdvanceAlike bound (field nested) (field nested') := by
  refine (keepAlike_eatWord "required").bind fun _ => h.type.bind fun type => ?_
  refine advanceAlike_identifier.bind fun name => (keepAlike_eatMark "=").bind fun given => ?_
  have hend : KeepAlike bound
      (do
        expectMark ";"
        return { Member.ofKind .field name with type := some type })
      (do
        expectMark ";"
        return { Member.ofKind .field name with type := some type }) :=
    (advanceAlike_expectMark ";").last _
  exact ComeAlike.ite given (keepAlike_defaultValue.bind fun _ => hend) hend

theorem advanceAlike_constant
    (h : nested.Alike bound nested') :
    AdvanceAlike bound (constant nested) (constant nested') := by
  refine h.type.bind fun type => advanceAlike_identifier.bind fun name => ?_
  refine (advanceAlike_expectMark "=").bind fun _ => keepAlike_defaultValue.bind fun _ => ?_
  exact (advanceAlike_expectMark ";").last _

theorem advanceAlike_constructorMember
    (h : nested.Alike bound nested') :
    AdvanceAlike bound (constructorMember nested) (constructorMember nested') :=
  (advanceAlike_arguments h).bind fun _ => (advanceAlike_expectMark ";").last _

theorem advanceAlike_operation
    (h : nested.Alike bound nested') :
    AdvanceAlike bound (operation nested) (operation nested') := by
  have hend : ∀ (type : IdlType) (name : Option String), KeepAlike bound
      (do
        let arguments ← arguments nested
        expectMark ";"
        return { Member.ofKind .operation name with type := some type, arguments := arguments })
      (do
        let arguments ← arguments nested'
        expectMark ";"
        return { Member.ofKind .operation name with
          type := some type, arguments := arguments }) := fun type name =>
    (advanceAlike_arguments h).bind fun arguments => (advanceAlike_expectMark ";").last _
  refine h.type.bind fun type => keepAlike_look.bind fun named => ComeAlike.ite named ?_ ?_
  · exact KeepAlike.bind (advanceAlike_identifier.map some) fun name => hend type name
  · exact hend type none

theorem advanceAlike_attributeMember
    (h : nested.Alike bound nested') :
    AdvanceAlike bound (attributeMember nested) (attributeMember nested') :=
  h.type.bind fun _ => advanceAlike_identifier.bind fun _ => (advanceAlike_expectMark ";").last _

theorem advanceAlike_attributeOrOperation
    (h : nested.Alike bound nested') :
    AdvanceAlike bound (attributeOrOperation nested) (attributeOrOperation nested') := by
  refine (keepAlike_eatWords "readonly").bind fun readonly => ?_
  refine (keepAlike_eatWord "attribute").bind fun isAttribute => ComeAlike.ite isAttribute ?_ ?_
  · exact (advanceAlike_attributeMember h).last _
  · exact (advanceAlike_operation h).last _

theorem advanceAlike_collection
    (h : nested.Alike bound nested')
    (kind : MemberKind)
    (readonly : Bool) :
    AdvanceAlike bound (collection nested kind readonly) (collection nested' kind readonly) :=
  (advanceAlike_typeParameters h.type).bind fun _ => (advanceAlike_expectMark ";").last _

theorem advanceAlike_iterable
    (h : nested.Alike bound nested')
    (isAsync : Bool) :
    AdvanceAlike bound (iterable nested isAsync) (iterable nested' isAsync) := by
  have hend : ∀ (typeArgs : List IdlType) (arguments : List Argument), KeepAlike bound
      (do
        expectMark ";"
        return { Member.ofKind .iterable none with
          isAsync := isAsync, typeArgs := typeArgs, arguments := arguments })
      (do
        expectMark ";"
        return { Member.ofKind .iterable none with
          isAsync := isAsync, typeArgs := typeArgs, arguments := arguments }) := fun _ _ =>
    (advanceAlike_expectMark ";").last _
  refine (advanceAlike_typeParameters h.type).bind fun typeArgs => ?_
  refine keepAlike_look.bind fun opened => ComeAlike.ite opened ?_ (hend typeArgs [])
  exact (advanceAlike_arguments h).bind fun arguments => hend typeArgs arguments

theorem advanceAlike_stringifier
    (h : nested.Alike bound nested') :
    AdvanceAlike bound (stringifier nested) (stringifier nested') :=
  (comeAlike_eatMark ";").given (keepAlike_pure _) ((advanceAlike_attributeOrOperation h).last _)

theorem keepAlike_specials :
    KeepAlike bound specials specials := by
  refine keepAlike_look.bind fun marks => ?_
  exact (keepAlike_modify fun _ => List.dropWhile_suffix _).bind fun _ => keepAlike_pure _

theorem advanceAlike_markedOperation
    (h : nested.Alike bound nested') :
    AdvanceAlike bound (markedOperation nested) (markedOperation nested') :=
  keepAlike_specials.bind fun _ => (advanceAlike_operation h).last _

theorem keepAlike_readonlyMark :
    KeepAlike bound readonlyMark readonlyMark := by
  refine keepAlike_look.bind fun isReadonly => keepAlike_look.bind fun isAttribute => ?_
  refine keepAlike_look.bind fun isMaplike => keepAlike_look.bind fun isSetlike => ?_
  exact ComeAlike.ite _ (keepAlike_skip.bind fun _ => keepAlike_pure true) (keepAlike_pure false)

theorem keepAlike_inheritMark :
    KeepAlike bound inheritMark inheritMark := by
  refine keepAlike_look.bind fun isInherit => ?_
  refine keepAlike_look.bind fun isReadonly => keepAlike_look.bind fun isAttribute => ?_
  exact ComeAlike.ite _ keepAlike_skip (keepAlike_pure ())

theorem keepAlike_asyncMark :
    KeepAlike bound asyncMark asyncMark := by
  refine keepAlike_look.bind fun isAsync => keepAlike_look.bind fun isIterable => ?_
  exact ComeAlike.ite _ (keepAlike_skip.bind fun _ => keepAlike_pure true) (keepAlike_pure false)

theorem advanceAlike_plainMember
    (h : nested.Alike bound nested') :
    AdvanceAlike bound (plainMember nested) (plainMember nested') := by
  refine keepAlike_inheritMark.bind fun _ => keepAlike_readonlyMark.bind fun readonly => ?_
  refine (comeAlike_eatWord "maplike").given (advanceAlike_collection h _ _).keep ?_
  refine (comeAlike_eatWord "setlike").given (advanceAlike_collection h _ _).keep ?_
  refine (comeAlike_eatWord "attribute").given ((advanceAlike_attributeMember h).last _) ?_
  refine keepAlike_asyncMark.bind fun isAsync => ?_
  exact (comeAlike_eatWord "iterable").given (advanceAlike_iterable h isAsync).keep
    (advanceAlike_markedOperation h)

theorem advanceAlike_member
    (h : nested.Alike bound nested') :
    AdvanceAlike bound (member nested) (member nested') := by
  refine (comeAlike_eatWord "const").given (advanceAlike_constant h).keep ?_
  refine keepAlike_look.bind fun isConstructor => keepAlike_look.bind fun opened => ?_
  refine ComeAlike.ite _ (keepAlike_skip.bind fun _ => advanceAlike_constructorMember h) ?_
  refine (comeAlike_eatWord "stringifier").given (advanceAlike_stringifier h).keep ?_
  exact (comeAlike_eatWord "static").given ((advanceAlike_attributeOrOperation h).last _)
    (advanceAlike_plainMember h)

/-! ## Definitions -/

theorem keepAlike_blockEnds :
    KeepAlike bound blockEnds blockEnds := by
  refine keepAlike_look.bind fun closed => ComeAlike.ite closed (keepAlike_pure true) ?_
  refine keepAlike_look.bind fun tokens => ?_
  exact ComeAlike.ite tokens.isEmpty (comeAlike_unexpected .bodyEnd) (keepAlike_pure false)

section Block

variable {item item' : Parser Member}

theorem advanceAlike_blockMember
    (h : nested.Alike bound nested')
    (hitem : AdvanceAlike bound item item') :
    AdvanceAlike bound (blockMember nested item) (blockMember nested' item') :=
  h.attributes.bind fun _ => keepAlike_look.bind fun _ => hitem.last _

theorem advanceAlike_block
    (h : nested.Alike bound nested')
    (hitem : AdvanceAlike bound item item') :
    AdvanceAlike bound (block nested item) (block nested' item') := by
  refine (advanceAlike_expectMark "\x7b").bind fun _ => ?_
  have hmembers := keepAlike_itemsUntil (fun _ => keepAlike_blockEnds)
    (advanceAlike_blockMember h hitem)
  refine hmembers.bind fun members => ?_
  exact (advanceAlike_expectMark "\x7d").bind fun _ => (advanceAlike_expectMark ";").last _

theorem keepAlike_inheritance :
    KeepAlike bound inheritance inheritance :=
  (comeAlike_eatMark ":").given (advanceAlike_identifier.last some) (keepAlike_pure none)

theorem advanceAlike_inheritingBody
    (h : nested.Alike bound nested')
    (kind : DefinitionKind)
    (hitem : AdvanceAlike bound item item') :
    AdvanceAlike bound (inheritingBody nested kind item) (inheritingBody nested' kind item') :=
  advanceAlike_identifier.bind fun _ => keepAlike_inheritance.bind fun _ =>
    (advanceAlike_block h hitem).last _

end Block

theorem advanceAlike_enumValues :
    AdvanceAlike bound enumValues enumValues := by
  refine (advanceAlike_expectMark "\x7b").bind fun _ => ?_
  refine (advanceAlike_commaList "\x7d" advanceAlike_stringValue).bind fun values => ?_
  exact (advanceAlike_expectMark ";").last _

theorem advanceAlike_plainBody
    (h : nested.Alike bound nested')
    (kind : DefinitionKind) :
    AdvanceAlike bound (plainBody nested kind) (plainBody nested' kind) :=
  advanceAlike_identifier.bind fun _ => (advanceAlike_block h (advanceAlike_member h)).last _

theorem advanceAlike_callbackFunction
    (h : nested.Alike bound nested') :
    AdvanceAlike bound (callbackFunction nested) (callbackFunction nested') := by
  refine advanceAlike_identifier.bind fun name => (advanceAlike_expectMark "=").bind fun _ => ?_
  refine h.type.bind fun type => (advanceAlike_arguments h).bind fun arguments => ?_
  exact (advanceAlike_expectMark ";").last _

theorem advanceAlike_typedefinition
    (h : nested.Alike bound nested') :
    AdvanceAlike bound (typedefinition nested) (typedefinition nested') :=
  h.type.bind fun _ => advanceAlike_identifier.bind fun _ => (advanceAlike_expectMark ";").last _

theorem advanceAlike_inclusion :
    AdvanceAlike bound inclusion inclusion := by
  refine advanceAlike_identifier.bind fun target => keepAlike_skip.bind fun _ => ?_
  exact advanceAlike_identifier.bind fun mixin => (advanceAlike_expectMark ";").last _

/-- Where no definition is found, no token is taken. -/
theorem comeAlike_extensible?
    (h : nested.Alike bound nested') :
    ComeAlike Option.isSome bound (extensible? nested) (extensible? nested') := by
  refine (comeAlike_eatWord "interface").given ?_ ?_
  · refine (comeAlike_eatWord "mixin").given ((advanceAlike_plainBody h _).map some) ?_
    exact (advanceAlike_inheritingBody h _ (advanceAlike_member h)).map some
  · refine (comeAlike_eatWord "namespace").given ((advanceAlike_plainBody h _).map some) ?_
    refine (comeAlike_eatWord "dictionary").given ?_ ?_
    · exact (advanceAlike_inheritingBody h _ (advanceAlike_field h)).map some
    · exact comeAlike_pure rfl

theorem advanceAlike_inextensible
    (h : nested.Alike bound nested') :
    AdvanceAlike bound (inextensible nested) (inextensible nested') := by
  refine (comeAlike_eatWord "enum").given ?_ ?_
  · exact advanceAlike_identifier.bind fun name => advanceAlike_enumValues.last _
  · refine (comeAlike_eatWord "typedef").given (advanceAlike_typedefinition h).keep ?_
    refine keepAlike_look.bind fun isName => keepAlike_look.bind fun includes => ?_
    exact ComeAlike.ite _ advanceAlike_inclusion (comeAlike_unexpected .definition)

theorem advanceAlike_definitionBody
    (h : nested.Alike bound nested') :
    AdvanceAlike bound (definitionBody nested) (definitionBody nested') := by
  refine (comeAlike_eatWord "callback").given ?_ ?_
  · exact (comeAlike_eatWord "interface").given (advanceAlike_plainBody h _).keep
      (advanceAlike_callbackFunction h).keep
  · refine (keepAlike_eatWord "partial").bind fun isPartial => ?_
    refine (comeAlike_extensible? h).bind (fun found hfound => ?_) fun found hfound => ?_
    · obtain ⟨definition, rfl⟩ := Option.isSome_iff_exists.1 hfound
      exact keepAlike_pure _
    · obtain rfl := Option.not_isSome_iff_eq_none.1 (Bool.not_eq_true _ ▸ hfound)
      exact ComeAlike.ite isPartial (comeAlike_unexpected _) (advanceAlike_inextensible h)

theorem advanceAlike_definition
    (h : nested.Alike bound nested') :
    AdvanceAlike bound (definition nested) (definition nested') :=
  h.attributes.bind fun _ => keepAlike_look.bind fun _ => (advanceAlike_definitionBody h).last _

theorem keepAlike_definitions
    (h : nested.Alike bound nested') :
    KeepAlike bound (definitions nested) (definitions nested') :=
  keepAlike_itemsUntil (fun _ => keepAlike_look) (advanceAlike_definition h)

/-- Readers of two numbers of levels, on fewer tokens than the bound. -/
structure ReadersAdvance (bound : Nat) (nested nested' : Nested) : Prop where
  definitions : KeepAlike bound (definitions nested) (definitions nested')
  definition : AdvanceAlike bound (definition nested) (definition nested')
  definitionBody : AdvanceAlike bound (definitionBody nested) (definitionBody nested')
  inheritance : KeepAlike bound inheritance inheritance
  enumValues : AdvanceAlike bound enumValues enumValues
  memberBlock : AdvanceAlike bound (block nested (member nested)) (block nested' (member nested'))
  fieldBlock : AdvanceAlike bound (block nested (field nested)) (block nested' (field nested'))
  field : AdvanceAlike bound (field nested) (field nested')
  member : AdvanceAlike bound (member nested) (member nested')
  attributeOrOperation :
    AdvanceAlike bound (attributeOrOperation nested) (attributeOrOperation nested')
  operation : AdvanceAlike bound (operation nested) (operation nested')
  arguments : AdvanceAlike bound (arguments nested) (arguments nested')
  argument : AdvanceAlike bound (argument nested) (argument nested')
  defaultValue : KeepAlike bound defaultValue defaultValue
  type : AdvanceAlike bound nested.type nested'.type
  namedType : AdvanceAlike bound (namedType nested.type) (namedType nested'.type)
  typeParameters : AdvanceAlike bound (typeParameters nested.type) (typeParameters nested'.type)
  attributes : KeepAlike bound nested.attributes nested'.attributes
  extendedAttribute : AdvanceAlike bound (extendedAttribute nested) (extendedAttribute nested')
  attributeValue : ∀ name, AdvanceAlike bound (attributeValue name) (attributeValue name)
  valueList : AdvanceAlike bound valueList valueList
  identifier : AdvanceAlike bound identifier identifier
  expectMark : ∀ mark, AdvanceAlike bound (expectMark mark) (expectMark mark)
  eatMark : ∀ mark, ComeAlike id bound (eatMark mark) (eatMark mark)
  eatWord : ∀ word, ComeAlike id bound (eatWord word) (eatWord word)
  skip : KeepAlike bound skip skip

theorem readersAdvance_of_alike
    (h : nested.Alike bound nested') :
    ReadersAdvance bound nested nested' where
  definitions := keepAlike_definitions h
  definition := advanceAlike_definition h
  definitionBody := advanceAlike_definitionBody h
  inheritance := keepAlike_inheritance
  enumValues := advanceAlike_enumValues
  memberBlock := advanceAlike_block h (advanceAlike_member h)
  fieldBlock := advanceAlike_block h (advanceAlike_field h)
  field := advanceAlike_field h
  member := advanceAlike_member h
  attributeOrOperation := advanceAlike_attributeOrOperation h
  operation := advanceAlike_operation h
  arguments := advanceAlike_arguments h
  argument := advanceAlike_argument h
  defaultValue := keepAlike_defaultValue
  type := h.type
  namedType := (advanceAlike_namedType h.type).fewer (Nat.le_succ bound)
  typeParameters := advanceAlike_typeParameters h.type
  attributes := h.attributes
  extendedAttribute := advanceAlike_extendedAttribute h
  attributeValue := advanceAlike_attributeValue
  valueList := advanceAlike_valueList
  identifier := advanceAlike_identifier
  expectMark := advanceAlike_expectMark
  eatMark := comeAlike_eatMark
  eatWord := comeAlike_eatWord
  skip := keepAlike_skip

/-- Loops over items that take a token each, with two numbers of rounds that are not less than the
bound. -/
structure LoopsAdvance {α : Type} (bound rounds rounds' : Nat) (item item' : Parser α) : Prop where
  commaList : ∀ close, KeepAlike bound (commaListWithin close item rounds)
    (commaListWithin close item' rounds')
  separated : ∀ separator, (∀ bound, KeepAlike bound separator separator) →
    KeepAlike bound (moreWithin separator item rounds) (moreWithin separator item' rounds')
  itemsUntil : ∀ ends, (∀ bound, KeepAlike bound ends ends) →
    KeepAlike bound (untilWithin ends item rounds) (untilWithin ends item' rounds')

end Parser

/-! ## Texts -/

/-- Every piece of a text has a character, so as many rounds as characters and one are enough. -/
theorem scanWithin_add
    {text : List Char} {rounds : Nat}
    (h : text.length < rounds)
    (line more : Nat) :
    scanWithin (rounds + more) line text = scanWithin rounds line text := by
  induction text using induction_on_pieces generalizing rounds line with
  | done =>
      obtain ⟨rounds, rfl⟩ := Nat.exists_eq_succ_of_ne_zero (Nat.ne_zero_of_lt h)
      rw [Nat.succ_add]
      rfl
  | gap gap rest hgap ih =>
      obtain ⟨rounds, rfl⟩ := Nat.exists_eq_succ_of_ne_zero (Nat.ne_zero_of_lt h)
      have hlength := List.length_pos_iff.2 hgap.ne_nil
      rw [List.length_append] at h
      rw [Nat.succ_add, scanWithin_gap hgap, scanWithin_gap hgap, ih (by omega)]
  | word word rest hfits ih =>
      obtain ⟨rounds, rfl⟩ := Nat.exists_eq_succ_of_ne_zero (Nat.ne_zero_of_lt h)
      have hlength := List.length_pos_iff.2 hfits.spelling_ne_nil
      rw [List.length_append] at h
      rw [Nat.succ_add, scanWithin_word hfits, scanWithin_word hfits, ih (by omega)]
  | fault text fault hfault =>
      obtain ⟨rounds, rfl⟩ := Nat.exists_eq_succ_of_ne_zero (Nat.ne_zero_of_lt h)
      obtain ⟨last, hlast⟩ := hfault line
      rw [Nat.succ_add, scanWithin, scanWithin, hlast]

theorem scanWithin_eq_tokens
    {text : List Char} {rounds : Nat}
    (h : text.length < rounds) :
    scanWithin rounds 1 text = tokens text := by
  obtain ⟨more, rfl⟩ := Nat.exists_eq_add_of_le (Nat.succ_le_of_lt h)
  exact scanWithin_add (Nat.lt_succ_self text.length) 1 more

/-- Definitions may be read with more levels than there are tokens. -/
theorem map_definitions_level
    {found : List Token} {depth : Nat}
    (h : found.length < depth) :
    (Parser.definitions (Nested.level depth) found).map Prod.fst = definitionsOfTokens found := by
  have hsame := (Parser.keepAlike_definitions (Nested.alike_level h) found
    (Nat.lt_succ_self found.length)).1
  rw [definitionsOfTokens, hsame]
  cases Parser.definitions (Nested.level depth) found with
  | error stop =>
      rfl
  | ok read =>
      rfl

/-- A text is read, or there is a fault in it. -/
theorem exists_parse
    (text : List Char) :
    (∃ definitions, parse text = .ok definitions) ∨
      ∃ line problem, parse text = .error (line, problem) ∧ problem ≠ .tooDeep := by
  rw [parse]
  cases tokens text with
  | error failure =>
      exact Or.inr ⟨failure.1, .lexical failure.2, rfl, nofun⟩
  | ok scanned =>
      obtain ⟨found, last⟩ := scanned
      dsimp only
      have hcomes := (Parser.keepAlike_definitions (Nested.alike_level (Nat.le_refl _)) found
        (Nat.lt_succ_self found.length)).2
      rw [definitionsOfTokens]
      cases hrun : Parser.definitions (Nested.level (found.length + 1)) found with
      | error stop =>
          rw [hrun] at hcomes
          exact Or.inr ⟨stop.line.getD last, stop.problem, rfl, hcomes.1⟩
      | ok read =>
          exact Or.inl ⟨read.1, rfl⟩

/-- No reader goes back or past the last token, and those that have to take a token take one.  A
loop goes on, and a construct stands in another one, only behind a token, so that more rounds and
levels than there are tokens change nothing.  Every text is read, or there is a fault in it. -/
theorem reading_returns :
    (∀ depth depth', depth ≤ depth' →
      Parser.ReadersAdvance depth (Nested.level depth) (Nested.level depth')) ∧
    (∀ {α : Type} (bound : Nat) (item item' : Parser α), Parser.AdvanceAlike bound item item' →
      ∀ rounds rounds', bound ≤ rounds → bound ≤ rounds' →
        Parser.LoopsAdvance bound rounds rounds' item item') ∧
    (∀ (bound : Nat) (nested nested' : Nested), nested.Alike bound nested' →
      nested.outer.Alike (bound + 1) nested'.outer) ∧
    ∀ text : List Char,
      (∀ rounds, text.length < rounds → scanWithin rounds 1 text = tokens text) ∧
      (∀ found last, tokens text = .ok (found, last) → ∀ depth, found.length < depth →
        (Parser.definitions (Nested.level depth) found).map Prod.fst =
          definitionsOfTokens found) ∧
      ((∃ definitions, parse text = .ok definitions) ∨
        ∃ line problem, parse text = .error (line, problem) ∧ problem ≠ .tooDeep) := by
  refine ⟨fun depth depth' h => Parser.readersAdvance_of_alike (Nested.alike_level h), ?_,
    fun bound nested nested' h => h.outer, fun text => ⟨?_, ?_, exists_parse text⟩⟩
  · intro α bound item item' hitem rounds rounds' hrounds hrounds'
    exact ⟨fun close => Parser.keepAlike_commaListWithin close hitem hrounds hrounds',
      fun _ h => Parser.keepAlike_moreWithin h hitem hrounds hrounds',
      fun _ h => Parser.keepAlike_untilWithin h hitem hrounds hrounds'⟩
  · exact fun rounds h => scanWithin_eq_tokens h
  · exact fun found last _ depth h => map_definitions_level h

/-- An interface that breaks off in the type of an argument of an extended attribute of a type. -/
def brokenOff : List Char :=
  "interface A \x7b attribute ([X(long or".toList

/-- Its readers come to the same with two levels and with five, and the text is read up to its end,
where a bracket is missing. -/
theorem reading_returns_brokenOff :
    (2 ≤ 5 ∧ Parser.ReadersAdvance 2 (Nested.level 2) (Nested.level 5)) ∧
    (Parser.AdvanceAlike 3 Parser.identifier Parser.identifier ∧ 3 ≤ 3 ∧ 3 ≤ 4 ∧
      Parser.LoopsAdvance 3 3 4 Parser.identifier Parser.identifier) ∧
    ((Nested.level 2).Alike 2 (Nested.level 5) ∧
      (Nested.level 2).outer.Alike 3 (Nested.level 5).outer) ∧
    brokenOff.length < 40 ∧ scanWithin 40 1 brokenOff = tokens brokenOff ∧
    ∃ found, tokens brokenOff = .ok (found, 1) ∧ found.length < 20 ∧
      (Parser.definitions (Nested.level 20) found).map Prod.fst = definitionsOfTokens found ∧
      parse brokenOff = .error (1, .unexpected (.mark ")") none) := by
  obtain ⟨hreaders, hloops, houter, htexts⟩ := reading_returns
  obtain ⟨hrounds, hlevels, -⟩ := htexts brokenOff
  have hidentifier : Parser.AdvanceAlike 3 Parser.identifier Parser.identifier :=
    Parser.advanceAlike_identifier
  have hlevel : (Nested.level 2).Alike 2 (Nested.level 5) :=
    Nested.alike_level (by decide)
  have hlength : brokenOff.length < 40 := by
    decide +kernel
  have htokens : (tokens brokenOff).toOption =
      some ([⟨.name false, "interface", 1⟩, ⟨.name false, "A", 1⟩, ⟨.mark, "\x7b", 1⟩,
        ⟨.name false, "attribute", 1⟩, ⟨.mark, "(", 1⟩, ⟨.mark, "[", 1⟩, ⟨.name false, "X", 1⟩,
        ⟨.mark, "(", 1⟩, ⟨.name false, "long", 1⟩, ⟨.name false, "or", 1⟩], 1) := by
    decide +kernel
  have hfault : (match parse brokenOff with
      | .error fault => some fault
      | .ok _ => none) = some (1, .unexpected (.mark ")") none) := by
    decide +kernel
  cases hscan : tokens brokenOff with
  | error fault =>
      rw [hscan] at htokens
      cases htokens
  | ok scanned =>
      rw [hscan] at htokens
      obtain rfl := Option.some.inj htokens
      cases hparse : parse brokenOff with
      | ok definitions =>
          rw [hparse] at hfault
          cases hfault
      | error fault =>
          rw [hparse] at hfault
          obtain rfl := Option.some.inj hfault
          exact ⟨⟨by decide, hreaders 2 5 (by decide)⟩,
            ⟨hidentifier, by decide, by decide, hloops 3 _ _ hidentifier 3 4 (by decide) (by decide)⟩,
            ⟨hlevel, houter 2 _ _ hlevel⟩, hlength, hscan ▸ hrounds 40 hlength,
            _, rfl, by decide, hlevels _ 1 hscan 20 (by decide), rfl⟩

end WebIdl
end FeatureProbes
