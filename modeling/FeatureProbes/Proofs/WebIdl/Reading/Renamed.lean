import FeatureProbes.Proofs.WebIdl.Reading.Layout
import FeatureProbes.Proofs.WebIdl.Reading.Renaming

/-!
# Definitions with other names

Every reader follows a renaming, from types up to whole texts.  So tokens that say the same words
stand for the same definitions up to lines, or are refused for the same reason; and where a name
gives way to another one, so does it in the definitions.
-/

namespace FeatureProbes
namespace WebIdl

/-! ## Types -/

/-- Readers of nested constructs that follow a renaming. -/
structure Nested.Keeps (r : Renaming) (nested : Nested) : Prop where
  type : Parser.Follows r r.type nested.type nested.type
  attributes : Parser.Follows r (List.map r.extendedAttribute) nested.attributes nested.attributes

namespace Parser

variable {r : Renaming} {nested : Nested}

theorem follows_ite
    {α α' : Type} {change : α → α'} {first other : Parser α} {first' other' : Parser α'}
    (condition : Bool)
    (h : Follows r change first first')
    (hother : Follows r change other other') :
    Follows r change (if condition then first else other)
      (if condition then first' else other') := by
  cases condition with
  | true =>
      exact h
  | false =>
      exact hother

theorem follows_defaultValue :
    Follows r id defaultValue defaultValue := by
  refine (follows_eatMark "[").bind fun opened => ?_
  refine follows_ite opened (follows_expectMark "]") ?_
  refine (follows_eatMark "\x7b").bind fun opened => ?_
  refine follows_ite opened (follows_expectMark "\x7d") ?_
  refine follows_atName.bind fun isName => ?_
  refine (follows_atKind (by simp)).bind fun isInteger => ?_
  refine (follows_atKind (by simp)).bind fun isDecimal => ?_
  refine (follows_atKind (by simp)).bind fun isString => ?_
  exact follows_ite _ follows_skip (follows_unexpected _)

theorem follows_typeParameters
    {type : Parser IdlType}
    (htype : Follows r r.type type type) :
    Follows r (List.map r.type) (typeParameters type) (typeParameters type) := by
  refine (follows_expectMark "<").bind fun _ => ?_
  refine (follows_separated (follows_eatMark ",") htype).bind fun args => ?_
  exact (follows_expectMark ">").bind fun _ => follows_pure rfl

theorem name_beq
    {word : String}
    (h : word ∈ soughtWords)
    (text : String) :
    (r.name text == word) = (text == word) := by
  rw [Bool.eq_iff_iff, beq_iff_eq, beq_iff_eq, r.name_eq_iff word h]

theorem mem_soughtWords_of_generic
    {name : String}
    (h : name ∈ genericNames) :
    name ∈ soughtWords :=
  List.mem_append_right _ h

theorem contains_name
    (text : String) :
    genericNames.contains (r.name text) = genericNames.contains text := by
  rw [Bool.eq_iff_iff, List.contains_iff_mem, List.contains_iff_mem]
  constructor
  · intro h
    have heq := (r.name_eq_iff _ (mem_soughtWords_of_generic h) text).1 rfl
    rwa [heq]
  · intro h
    rwa [(r.name_eq_iff _ (mem_soughtWords_of_generic h) text).2 rfl]

theorem follows_namedType
    {type : Parser IdlType}
    (htype : Follows r r.type type type) :
    Follows r r.type (namedType type) (namedType type) := by
  have hlong : r.name "long" = "long" := (r.name_eq_iff "long" (by decide) _).2 rfl
  have hnamed : ∀ name name', r.name name = name' → r.type (.named name) = .named name' := by
    rintro name name' rfl
    rfl
  refine follows_identifier.bind fun first => ?_
  rw [name_beq (by decide), name_beq (by decide), name_beq (by decide), contains_name]
  refine follows_ite _ ?_ (follows_ite _ ?_ (follows_ite _ ?_ ?_))
  · refine follows_identifier.bind fun rest => ?_
    have hrest : Follows r r.type (pure (.named ("unsigned " ++ rest)))
        (pure (.named ("unsigned " ++ r.name rest))) :=
      follows_pure (hnamed _ _ (r.name_unsigned rest))
    rw [name_beq (by decide)]
    refine follows_ite _ ?_ hrest
    refine (follows_eatWord (by decide)).bind fun again => ?_
    refine follows_ite again (follows_pure (hnamed _ _ ?_)) hrest
    rw [show "unsigned long long" = "unsigned " ++ "long long" from rfl, r.name_unsigned,
      r.name_long_long]
  · exact follows_identifier.last fun rest => hnamed _ _ (r.name_unrestricted rest)
  · refine (follows_eatWord (by decide)).bind fun again => ?_
    exact follows_ite again (follows_pure (hnamed _ _ r.name_long_long))
      (follows_pure (hnamed _ _ hlong))
  · by_cases hgeneric : genericNames.contains first = true
    · rw [hgeneric]
      refine (follows_atMark "<").bind fun opened => ?_
      refine follows_ite opened ?_ (follows_pure rfl)
      refine (follows_typeParameters htype).last fun args => ?_
      have hfirst := (r.name_eq_iff first
        (mem_soughtWords_of_generic (List.contains_iff_mem.1 hgeneric)) first).2 rfl
      rw [hfirst, Renaming.type, r.types_eq_map]
    · rw [Bool.not_eq_true] at hgeneric
      rw [hgeneric]
      exact follows_pure rfl

theorem follows_type
    (h : nested.Keeps r) :
    Follows r r.type (type nested) (type nested) := by
  have hplain : ∀ plain, Follows r r.type
      (do if ← eatMark "?" then return .nullable plain else return plain)
      (do if ← eatMark "?" then return .nullable (r.type plain) else return r.type plain) := by
    intro plain
    refine (follows_eatMark "?").bind fun given => ?_
    exact follows_ite given (follows_pure rfl) (follows_pure rfl)
  refine h.attributes.bind fun _ => ?_
  refine (follows_eatMark "(").bind fun opened => ?_
  cases opened with
  | true =>
      refine (follows_separated (follows_eatWord (by decide)) h.type).bind fun types => ?_
      refine (follows_expectMark ")").bind fun _ => ?_
      have hunion : r.type (.union types) = .union (types.map r.type) := by
        rw [Renaming.type, r.types_eq_map]
      refine Follows.bind (follows_pure hunion) fun plain => ?_
      exact hplain plain
  | false =>
      exact (follows_namedType h.type).bind hplain

/-! ## Arguments and extended attributes -/

theorem follows_argument
    (h : nested.Keeps r) :
    Follows r r.argument (argument nested) (argument nested) := by
  refine h.attributes.bind fun _ => ?_
  refine (follows_eatWord (by decide)).bind fun optional => ?_
  refine h.type.bind fun type => ?_
  refine (follows_atKind (by simp)).bind fun variadic => ?_
  have hname : Follows r r.argument
      (do
        let name ← identifier
        if ← eatMark "=" then defaultValue
        return ⟨name, type, optional, variadic⟩)
      (do
        let name ← identifier
        if ← eatMark "=" then defaultValue
        return ⟨name, r.type type, optional, variadic⟩) := by
    refine follows_identifier.bind fun name => ?_
    refine (follows_eatMark "=").bind fun given => ?_
    cases given with
    | true =>
        exact follows_defaultValue.bind fun _ => follows_pure rfl
    | false =>
        exact follows_pure rfl
  cases variadic with
  | true =>
      exact follows_skip.bind fun _ => hname
  | false =>
      exact hname

theorem follows_arguments
    (h : nested.Keeps r) :
    Follows r (List.map r.argument) (arguments nested) (arguments nested) :=
  (follows_expectMark "(").bind fun _ => follows_commaList (follows_argument h)

theorem follows_listedName :
    Follows r r.name listedName listedName :=
  follows_token r.isName_token (fun _ h => (r.text_token_of_isName h).symm)
    (follows_stop .invalidList)

theorem follows_listedString :
    Follows r id listedString listedString :=
  follows_token (r.kind_token (by simp))
    (fun _ h => (r.text_token_of_not_isName (Renaming.isName_of_kind h (by simp))).symm)
    (follows_stop .invalidList)

theorem follows_valueList :
    Follows r r.value valueList valueList := by
  refine (follows_atKind (by simp)).bind fun isString => ?_
  refine follows_ite isString ?_ ?_
  · refine (follows_commaList follows_listedString).last fun values => ?_
    rw [List.map_id]
    rfl
  · exact (follows_commaList follows_listedName).last fun _ => rfl

theorem follows_plainValue
    (name : String) :
    Follows r r.value (plainValue name) (plainValue (r.name name)) := by
  intro tokens
  have hstop : r.Turns (.invalidValue name) (.invalidValue (r.name name)) := .invalidValue name
  cases tokens with
  | nil =>
      exact .stop hstop
  | cons token rest =>
      obtain ⟨kind, text, line⟩ := token
      cases kind with
      | name marked =>
          exact .value (AttributeValue.identifier text) rest
      | integer =>
          exact .value (AttributeValue.integer text) rest
      | decimal =>
          exact .value (AttributeValue.decimal text) rest
      | string =>
          exact .value (AttributeValue.string text) rest
      | _ =>
          exact .stop hstop

theorem follows_attributeValue
    (name : String) :
    Follows r r.value (attributeValue name) (attributeValue (r.name name)) := by
  refine (follows_eatMark "*").bind fun wildcard => ?_
  refine follows_ite wildcard (follows_pure rfl) ?_
  refine (follows_eatMark "(").bind fun opened => ?_
  exact follows_ite opened follows_valueList (follows_plainValue name)

theorem follows_optional_arguments
    (h : nested.Keeps r) {α α' : Type} {change : α → α'}
    {after : List Argument → Parser α} {after' : List Argument → Parser α'}
    (hafter : ∀ found, Follows r change (after found) (after' (found.map r.argument))) :
    Follows r change
      (do
        let found ← if ← atMark "(" then arguments nested else pure []
        after found)
      (do
        let found ← if ← atMark "(" then arguments nested else pure []
        after' found) := by
  refine (follows_atMark "(").bind fun opened => ?_
  cases opened with
  | true =>
      exact (follows_arguments h).bind hafter
  | false =>
      exact hafter []

theorem follows_extendedAttribute
    (h : nested.Keeps r) :
    Follows r r.extendedAttribute (extendedAttribute nested) (extendedAttribute nested) := by
  refine follows_identifier.bind fun name => ?_
  refine (follows_eatMark "=").bind fun given => ?_
  cases given with
  | true =>
      have hvalue : Follows r (Option.map r.value) (some <$> attributeValue name)
          (some <$> attributeValue (r.name name)) :=
        (follows_attributeValue name).map fun _ => rfl
      exact hvalue.bind fun value => follows_optional_arguments h fun _ => follows_pure rfl
  | false =>
      exact follows_optional_arguments h fun _ => follows_pure rfl

theorem follows_attributes
    (h : nested.Keeps r) :
    Follows r (List.map r.extendedAttribute) (attributes nested) (attributes nested) := by
  refine (follows_eatMark "[").bind fun opened => ?_
  refine follows_ite opened ?_ (follows_pure rfl)
  refine (follows_separated (follows_eatMark ",") (follows_extendedAttribute h)).bind fun list => ?_
  exact (follows_expectMark "]").bind fun _ => follows_pure rfl

end Parser

theorem Nested.keeps_level
    (r : Renaming)
    (depth : Nat) :
    (Nested.level depth).Keeps r := by
  induction depth with
  | zero =>
      exact ⟨Parser.follows_stop _, Parser.follows_stop _⟩
  | succ depth ih =>
      have hattributes := Parser.follows_attributes ih
      exact ⟨Parser.follows_type ⟨ih.type, hattributes⟩, hattributes⟩

namespace Parser

variable {r : Renaming} {nested : Nested}

/-! ## Members -/

theorem follows_field
    (h : nested.Keeps r) :
    Follows r r.member (field nested) (field nested) := by
  refine (follows_eatWord (by decide)).bind fun _ => ?_
  refine h.type.bind fun type => ?_
  refine follows_identifier.bind fun name => ?_
  have hend : Follows r r.member
      (do
        expectMark ";"
        return { Member.ofKind .field name with type := some type })
      (do
        expectMark ";"
        return { Member.ofKind .field (some (r.name name)) with type := some (r.type type) }) :=
    (follows_expectMark ";").bind fun _ => follows_pure rfl
  refine (follows_eatMark "=").bind fun given => ?_
  cases given with
  | true =>
      exact follows_defaultValue.bind fun _ => hend
  | false =>
      exact hend

theorem follows_constant
    (h : nested.Keeps r) :
    Follows r r.member (constant nested) (constant nested) := by
  refine h.type.bind fun type => ?_
  refine follows_identifier.bind fun name => ?_
  refine (follows_expectMark "=").bind fun _ => ?_
  refine follows_defaultValue.bind fun _ => ?_
  exact (follows_expectMark ";").bind fun _ => follows_pure rfl

theorem follows_constructorMember
    (h : nested.Keeps r) :
    Follows r r.member (constructorMember nested) (constructorMember nested) := by
  refine (follows_arguments h).bind fun arguments => ?_
  exact (follows_expectMark ";").bind fun _ => follows_pure rfl

theorem follows_operation
    (h : nested.Keeps r) :
    Follows r r.member (operation nested) (operation nested) := by
  refine h.type.bind fun type => ?_
  have hrest : ∀ name, Follows r r.member
      (do
        let arguments ← arguments nested
        expectMark ";"
        return { Member.ofKind .operation name with
          type := some type, arguments := arguments })
      (do
        let arguments ← arguments nested
        expectMark ";"
        return { Member.ofKind .operation (name.map r.name) with
          type := some (r.type type), arguments := arguments }) := by
    intro name
    refine (follows_arguments h).bind fun arguments => ?_
    exact (follows_expectMark ";").bind fun _ => follows_pure rfl
  refine follows_atName.bind fun named => ?_
  cases named with
  | true =>
      have hname : Follows r (Option.map r.name) (some <$> identifier) (some <$> identifier) :=
        follows_identifier.map fun _ => rfl
      exact hname.bind hrest
  | false =>
      exact hrest none

theorem follows_attributeMember
    (h : nested.Keeps r) :
    Follows r r.member (attributeMember nested) (attributeMember nested) := by
  refine h.type.bind fun type => ?_
  refine follows_identifier.bind fun name => ?_
  exact (follows_expectMark ";").bind fun _ => follows_pure rfl

theorem follows_attributeOrOperation
    (h : nested.Keeps r) :
    Follows r r.member (attributeOrOperation nested) (attributeOrOperation nested) := by
  refine (follows_eatWords (by decide)).bind fun readonly => ?_
  refine (follows_eatWord (by decide)).bind fun isAttribute => ?_
  cases isAttribute with
  | true =>
      exact (follows_attributeMember h).last fun _ => rfl
  | false =>
      exact (follows_operation h).last fun _ => rfl

theorem follows_collection
    (h : nested.Keeps r)
    (kind : MemberKind)
    (readonly : Bool) :
    Follows r r.member (collection nested kind readonly) (collection nested kind readonly) := by
  refine (follows_typeParameters h.type).bind fun typeArgs => ?_
  exact (follows_expectMark ";").bind fun _ => follows_pure rfl

theorem follows_iterable
    (h : nested.Keeps r)
    (isAsync : Bool) :
    Follows r r.member (iterable nested isAsync) (iterable nested isAsync) := by
  refine (follows_typeParameters h.type).bind fun typeArgs => ?_
  refine follows_optional_arguments h fun arguments => ?_
  exact (follows_expectMark ";").bind fun _ => follows_pure rfl

theorem follows_stringifier
    (h : nested.Keeps r) :
    Follows r r.member (stringifier nested) (stringifier nested) := by
  refine (follows_eatMark ";").bind fun ended => ?_
  cases ended with
  | true =>
      exact follows_pure rfl
  | false =>
      exact (follows_attributeOrOperation h).last fun _ => rfl

theorem specialOfToken?_token
    (token : Token) :
    specialOfToken? (r.token token) = specialOfToken? token := by
  rw [specialOfToken?, r.isWord_token (by decide), r.isWord_token (by decide),
    r.isWord_token (by decide)]
  rfl

theorem follows_specials :
    Follows r id specials specials := by
  have hspecial : ∀ token, (specialOfToken? (r.token token)).isSome =
      (specialOfToken? token).isSome := fun token => by rw [specialOfToken?_token]
  refine follows_get.bind fun tokens => ?_
  refine (follows_modify (dropWhile_token hspecial)).bind fun _ => ?_
  refine follows_pure ?_
  rw [takeWhile_token hspecial, List.getLast?_map]
  cases (tokens.takeWhile fun token => (specialOfToken? token).isSome).getLast? with
  | none =>
      rfl
  | some token =>
      exact (specialOfToken?_token token).symm

theorem follows_markedOperation
    (h : nested.Keeps r) :
    Follows r r.member (markedOperation nested) (markedOperation nested) :=
  follows_specials.bind fun _ => (follows_operation h).last fun _ => rfl

theorem follows_readonlyMark :
    Follows r id readonlyMark readonlyMark := by
  refine (follows_atWord (by decide)).bind fun isReadonly => ?_
  refine (follows_nextIsWord (by decide)).bind fun isAttribute => ?_
  refine (follows_nextIsWord (by decide)).bind fun isMaplike => ?_
  refine (follows_nextIsWord (by decide)).bind fun isSetlike => ?_
  exact follows_ite _ (follows_skip.bind fun _ => follows_pure rfl) (follows_pure rfl)

theorem follows_inheritMark :
    Follows r id inheritMark inheritMark := by
  refine (follows_atWord (by decide)).bind fun isInherit => ?_
  refine (follows_nextIsWord (by decide)).bind fun isReadonly => ?_
  refine (follows_nextIsWord (by decide)).bind fun isAttribute => ?_
  exact follows_ite _ follows_skip (follows_pure rfl)

theorem follows_asyncMark :
    Follows r id asyncMark asyncMark := by
  refine (follows_atWord (by decide)).bind fun isAsync => ?_
  refine (follows_nextIsWord (by decide)).bind fun isIterable => ?_
  exact follows_ite _ (follows_skip.bind fun _ => follows_pure rfl) (follows_pure rfl)

theorem follows_plainMember
    (h : nested.Keeps r) :
    Follows r r.member (plainMember nested) (plainMember nested) := by
  refine follows_inheritMark.bind fun _ => ?_
  refine follows_readonlyMark.bind fun readonly => ?_
  refine (follows_eatWord (by decide)).bind fun isMaplike => ?_
  refine follows_ite isMaplike (follows_collection h _ _) ?_
  refine (follows_eatWord (by decide)).bind fun isSetlike => ?_
  refine follows_ite isSetlike (follows_collection h _ _) ?_
  refine (follows_eatWord (by decide)).bind fun isAttribute => ?_
  refine follows_ite isAttribute ((follows_attributeMember h).last fun _ => rfl) ?_
  refine follows_asyncMark.bind fun isAsync => ?_
  refine (follows_eatWord (by decide)).bind fun isIterable => ?_
  exact follows_ite isIterable (follows_iterable h _) (follows_markedOperation h)

theorem follows_member
    (h : nested.Keeps r) :
    Follows r r.member (member nested) (member nested) := by
  refine (follows_eatWord (by decide)).bind fun isConstant => ?_
  refine follows_ite isConstant (follows_constant h) ?_
  refine (follows_atWord (by decide)).bind fun isConstructor => ?_
  refine (follows_nextIsMark "(").bind fun opened => ?_
  refine follows_ite _ (follows_skip.bind fun _ => follows_constructorMember h) ?_
  refine (follows_eatWord (by decide)).bind fun isStringifier => ?_
  refine follows_ite isStringifier (follows_stringifier h) ?_
  refine (follows_eatWord (by decide)).bind fun isStatic => ?_
  exact follows_ite isStatic ((follows_attributeOrOperation h).last fun _ => rfl)
    (follows_plainMember h)

/-! ## Definitions -/

/-- Lines are lost with a renaming. -/
theorem follows_here :
    Follows r (fun _ => 0) here here := by
  intro tokens
  cases tokens with
  | nil =>
      exact .value 0 []
  | cons token rest =>
      have hline : (r.token token).line = 0 := by
        obtain ⟨kind, text, line⟩ := token
        cases kind <;> rfl
      change SameEnd r (fun _ => (0 : UInt32)) (.ok (UInt32.ofNat token.line, token :: rest))
        (.ok (UInt32.ofNat (r.token token).line, (token :: rest).map r.token))
      rw [hline]
      exact .value _ _

theorem follows_blockEnds :
    Follows r id blockEnds blockEnds := by
  refine (follows_atMark "\x7d").bind fun closed => ?_
  cases closed with
  | true =>
      exact follows_pure rfl
  | false =>
      refine follows_get.bind fun tokens => ?_
      cases tokens with
      | nil =>
          have hend : Follows r (id : Unit → Unit) (unexpected .bodyEnd) (unexpected .bodyEnd) :=
            follows_unexpected .bodyEnd
          exact hend.bind fun _ => follows_pure rfl
      | cons token rest =>
          exact follows_pure rfl

theorem follows_blockMember
    (h : nested.Keeps r)
    {item : Parser Member}
    (hitem : Follows r r.member item item) :
    Follows r r.member (blockMember nested item) (blockMember nested item) := by
  refine h.attributes.bind fun attributes => ?_
  refine follows_here.bind fun line => ?_
  exact hitem.last fun _ => rfl

theorem follows_block
    (h : nested.Keeps r)
    {item : Parser Member}
    (hitem : Follows r r.member item item) :
    Follows r (List.map r.member) (block nested item) (block nested item) := by
  refine (follows_expectMark "\x7b").bind fun _ => ?_
  refine (follows_itemsUntil follows_blockEnds (follows_blockMember h hitem)).bind fun members => ?_
  refine (follows_expectMark "\x7d").bind fun _ => ?_
  exact (follows_expectMark ";").bind fun _ => follows_pure rfl

theorem follows_inheritance :
    Follows r (Option.map r.name) inheritance inheritance := by
  refine (follows_eatMark ":").bind fun given => ?_
  exact follows_ite given (follows_identifier.last fun _ => rfl) (follows_pure rfl)

theorem follows_enumValues :
    Follows r id enumValues enumValues := by
  refine (follows_expectMark "\x7b").bind fun _ => ?_
  refine (follows_commaList follows_stringValue).bind fun values => ?_
  rw [List.map_id]
  exact (follows_expectMark ";").bind fun _ => follows_pure rfl

theorem follows_plainBody
    (h : nested.Keeps r)
    (kind : DefinitionKind) :
    Follows r r.definition (plainBody nested kind) (plainBody nested kind) := by
  refine follows_identifier.bind fun name => ?_
  exact (follows_block h (follows_member h)).last fun _ => rfl

theorem follows_inheritingBody
    (h : nested.Keeps r)
    (kind : DefinitionKind)
    {item : Parser Member}
    (hitem : Follows r r.member item item) :
    Follows r r.definition (inheritingBody nested kind item) (inheritingBody nested kind item) := by
  refine follows_identifier.bind fun name => ?_
  refine follows_inheritance.bind fun inheritance => ?_
  exact (follows_block h hitem).last fun _ => rfl

theorem follows_callbackFunction
    (h : nested.Keeps r) :
    Follows r r.definition (callbackFunction nested) (callbackFunction nested) := by
  refine follows_identifier.bind fun name => ?_
  refine (follows_expectMark "=").bind fun _ => ?_
  refine h.type.bind fun type => ?_
  refine (follows_arguments h).bind fun arguments => ?_
  exact (follows_expectMark ";").bind fun _ => follows_pure rfl

theorem follows_typedefinition
    (h : nested.Keeps r) :
    Follows r r.definition (typedefinition nested) (typedefinition nested) := by
  refine h.type.bind fun type => ?_
  refine follows_identifier.bind fun name => ?_
  exact (follows_expectMark ";").bind fun _ => follows_pure rfl

theorem follows_inclusion :
    Follows r r.definition inclusion inclusion := by
  refine follows_identifier.bind fun target => ?_
  refine follows_skip.bind fun _ => ?_
  refine follows_identifier.bind fun mixin => ?_
  exact (follows_expectMark ";").bind fun _ => follows_pure rfl

theorem follows_extensible?
    (h : nested.Keeps r) :
    Follows r (Option.map r.definition) (extensible? nested) (extensible? nested) := by
  refine (follows_eatWord (by decide)).bind fun isInterface => ?_
  refine follows_ite isInterface ?_ ?_
  · refine (follows_eatWord (by decide)).bind fun isMixin => ?_
    exact follows_ite isMixin ((follows_plainBody h _).map fun _ => rfl)
      ((follows_inheritingBody h _ (follows_member h)).map fun _ => rfl)
  refine (follows_eatWord (by decide)).bind fun isNamespace => ?_
  refine follows_ite isNamespace ((follows_plainBody h _).map fun _ => rfl) ?_
  refine (follows_eatWord (by decide)).bind fun isDictionary => ?_
  exact follows_ite isDictionary ((follows_inheritingBody h _ (follows_field h)).map fun _ => rfl)
    (follows_pure rfl)

theorem follows_inextensible
    (h : nested.Keeps r) :
    Follows r r.definition (inextensible nested) (inextensible nested) := by
  refine (follows_eatWord (by decide)).bind fun isEnumeration => ?_
  refine follows_ite isEnumeration ?_ ?_
  · exact follows_identifier.bind fun name => follows_enumValues.last fun _ => rfl
  refine (follows_eatWord (by decide)).bind fun isTypedef => ?_
  refine follows_ite isTypedef (follows_typedefinition h) ?_
  refine follows_atName.bind fun named => ?_
  refine (follows_nextIsWord (by decide)).bind fun includes => ?_
  exact follows_ite _ follows_inclusion (follows_unexpected _)

theorem follows_definitionBody
    (h : nested.Keeps r) :
    Follows r r.definition (definitionBody nested) (definitionBody nested) := by
  refine (follows_eatWord (by decide)).bind fun isCallback => ?_
  refine follows_ite isCallback ?_ ?_
  · refine (follows_eatWord (by decide)).bind fun isInterface => ?_
    exact follows_ite isInterface (follows_plainBody h _) (follows_callbackFunction h)
  refine (follows_eatWord (by decide)).bind fun isPartial => ?_
  refine (follows_extensible? h).bind fun found => ?_
  cases found with
  | some definition =>
      exact follows_pure rfl
  | none =>
      exact follows_ite isPartial (follows_unexpected _) (follows_inextensible h)

theorem follows_definition
    (h : nested.Keeps r) :
    Follows r r.definition (definition nested) (definition nested) := by
  refine h.attributes.bind fun attributes => ?_
  refine follows_here.bind fun line => ?_
  exact (follows_definitionBody h).last fun _ => rfl

theorem follows_definitions
    (h : nested.Keeps r) :
    Follows r (List.map r.definition) (definitions nested) (definitions nested) := by
  refine follows_itemsUntil (follows_look fun tokens => ?_) (follows_definition h)
  cases tokens <;> rfl

end Parser

/-! ## Texts -/

namespace Renaming

mutual

theorem none_type : ∀ type, none.type type = type
  | .named _ => rfl
  | .generic name args => by rw [type, none_types args]
  | .union items => by rw [type, none_types items]
  | .nullable inner => by rw [type, none_type inner]

theorem none_types : ∀ items, none.types items = items
  | [] => rfl
  | first :: more => by rw [types, none_type first, none_types more]

end

theorem none_type_eq : none.type = id :=
  funext none_type

theorem none_argument_eq : none.argument = id := by
  funext item
  rw [argument, none_type]
  rfl

theorem none_extendedAttribute_eq : none.extendedAttribute = id := by
  funext item
  have hvalue : none.value = id := by
    funext value
    cases value with
    | identifierList names =>
        exact congrArg AttributeValue.identifierList (List.map_id names)
    | _ =>
        rfl
  rw [extendedAttribute, none_argument_eq, hvalue, List.map_id, Option.map_id]
  rfl

theorem none_member_eq : none.member = Member.unlined := by
  funext item
  rw [member, none_type_eq, none_argument_eq, none_extendedAttribute_eq]
  simp [none, Member.unlined]

theorem none_definition_eq : none.definition = Definition.unlined := by
  funext item
  rw [definition, none_type_eq, none_argument_eq, none_extendedAttribute_eq, none_member_eq]
  simp [none, Definition.unlined]

variable (r : Renaming)

/-- A word with another name. -/
def word (word : Word) : Word :=
  (r.token ⟨word.kind, word.text, 0⟩).word

theorem token_eq_word
    (token : Token) :
    r.token token = ⟨(r.word token.word).kind, (r.word token.word).text, 0⟩ := by
  obtain ⟨kind, text, line⟩ := token
  cases kind <;> rfl

theorem eq_of_none_turns
    {problem problem' : SyntaxProblem}
    (h : none.Turns problem problem') :
    problem' = problem := by
  cases h <;> rfl

/-- What a text stands for, and what a text with other names stands for, up to lines. -/
inductive Gives :
    Except (Nat × SyntaxProblem) (List Definition) →
      Except (Nat × SyntaxProblem) (List Definition) → Prop
  | definitions
      {found found' : List Definition}
      (h : found'.map Definition.unlined = found.map r.definition) :
      Gives (.ok found) (.ok found')
  | stop
      {line line' : Nat} {problem problem' : SyntaxProblem}
      (h : r.Turns problem problem') :
      Gives (.error (line, problem)) (.error (line', problem'))

end Renaming

/-- A text whose words are those of another one up to names stands for its definitions up to
names. -/
theorem gives_of_words
    {r : Renaming} {text text' : List Char} {words words' : List Word}
    (h : wordsOf text = .ok words)
    (h' : wordsOf text' = .ok words')
    (hwords : words'.map Renaming.none.word = words.map r.word) :
    r.Gives (parse text) (parse text') := by
  obtain ⟨found, last, hfound, rfl⟩ := exists_tokens_of_wordsOf h
  obtain ⟨found', last', hfound', rfl⟩ := exists_tokens_of_wordsOf h'
  have hlength : found'.length = found.length := by
    simpa using congrArg List.length hwords
  have htokens : found'.map Renaming.none.token = found.map r.token := by
    rw [List.map_map, List.map_map] at hwords
    have hmap := congrArg (List.map fun word : Word => (⟨word.kind, word.text, 0⟩ : Token)) hwords
    rw [List.map_map, List.map_map] at hmap
    rw [funext (Renaming.token_eq_word Renaming.none), funext r.token_eq_word]
    exact hmap
  have hfirst := Parser.follows_definitions (Nested.keeps_level r (found.length + 1)) found
  have hsecond := Parser.follows_definitions
    (Nested.keeps_level Renaming.none (found.length + 1)) found'
  rw [htokens] at hsecond
  rw [parse, parse, hfound, hfound']
  simp only [definitionsOfTokens, hlength]
  generalize Parser.definitions (Nested.level (found.length + 1)) found = one at hfirst ⊢
  generalize Parser.definitions (Nested.level (found.length + 1)) found' = two at hsecond ⊢
  generalize Parser.definitions (Nested.level (found.length + 1)) (found.map r.token) = both at *
  cases one with
  | ok read =>
      have hboth := hfirst.eq_of_ok
      rw [hboth] at hsecond
      cases two with
      | ok read' =>
          obtain ⟨hvalue, -⟩ := Prod.mk.inj (Except.ok.inj hsecond.eq_of_ok)
          rw [Renaming.none_definition_eq] at hvalue
          exact .definitions hvalue.symm
      | error stop' =>
          cases hsecond
  | error stop =>
      cases hfirst with
      | stop hstop =>
          cases hsecond with
          | stop hstop' =>
              rw [Renaming.eq_of_none_turns hstop'] at hstop
              exact .stop hstop

/-- A text that says the same words stands for the same definitions up to lines, or is refused for
the same reason. -/
theorem gives_of_wordsOf_eq
    {text text' : List Char}
    (h : wordsOf text' = wordsOf text) :
    Renaming.none.Gives (parse text) (parse text') := by
  cases hwords : wordsOf text with
  | ok words =>
      exact gives_of_words hwords (h.trans hwords) rfl
  | error fault =>
      obtain ⟨line, hline⟩ := exists_fault_of_wordsOf hwords
      obtain ⟨line', hline'⟩ := exists_fault_of_wordsOf (h.trans hwords)
      rw [parse, parse, hline, hline']
      exact .stop (.same _)

end WebIdl
end FeatureProbes
