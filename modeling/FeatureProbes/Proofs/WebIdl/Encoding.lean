import FeatureProbes.Proofs.Json.Encoding
import FeatureProbes.WebIdl.Codec

/-!
# Definitions that are written and read back

Definitions, with all their members, types, arguments and extended attributes, and merged
definitions are read back as they were written.  The value of a type has more levels than the type,
so the levels that the reader of types starts with are enough for each of its parts.
-/

namespace FeatureProbes
namespace WebIdl

open Json (Value)

namespace IdlType

theorem toValues_eq_map
    (types : List IdlType) :
    toValues types = types.map toValue := by
  induction types with
  | nil =>
      rfl
  | cons type more ih =>
      rw [toValues, ih, List.map_cons]

/-- What holds of named types, and of a type if it holds of its parts, holds of every type. -/
theorem induction_of_parts
    {motive : IdlType → Prop}
    (named : ∀ name, motive (named name))
    (generic : ∀ name args, (∀ arg ∈ args, motive arg) → motive (generic name args))
    (union : ∀ types, (∀ type ∈ types, motive type) → motive (union types))
    (nullable : ∀ inner, motive inner → motive (nullable inner))
    (type : IdlType) :
    motive type := by
  refine @IdlType.rec motive (fun types => ∀ type ∈ types, motive type)
    named generic union nullable nofun ?cons type
  case cons =>
    exact fun _ _ hfirst hmore => List.forall_mem_cons.2 ⟨hfirst, hmore⟩

/-- Types are read back one by one. -/
theorem list?_toValues
    {types : List IdlType} {levels : Nat}
    (h : ∀ type ∈ types, type.toValue.depth < levels →
      ofValueWithin? levels type.toValue = some type)
    (hdepth : Value.depthOfItems (toValues types) < levels) :
    (Value.array (toValues types)).list? (ofValueWithin? levels) = some types := by
  rw [toValues_eq_map] at hdepth ⊢
  refine Value.list?_map fun type htype => h type htype ?_
  exact Nat.lt_of_le_of_lt (Value.depth_le_depthOfItems (List.mem_map_of_mem htype)) hdepth

/-- A type is read back within more levels than its value has. -/
theorem ofValueWithin?_toValue
    (type : IdlType)
    {levels : Nat}
    (h : type.toValue.depth < levels) :
    ofValueWithin? levels type.toValue = some type := by
  induction type using induction_of_parts generalizing levels with
  | named name =>
      obtain ⟨levels, rfl⟩ := Nat.exists_eq_add_one.2 (Nat.zero_lt_of_lt h)
      rfl
  | generic name args ih =>
      obtain ⟨levels, rfl⟩ := Nat.exists_eq_add_one.2 (Nat.zero_lt_of_lt h)
      rw [toValue, Value.depth_choice] at h
      simp only [Value.depth, Value.depthOfMembers] at h
      have hread : ofValueWithin? (levels + 1) (generic name args).toValue =
          (do
            let args ← (Value.array (toValues args)).list? (ofValueWithin? levels)
            return generic name args) := rfl
      rw [hread, list?_toValues fun arg harg hdepth => ih arg harg hdepth]
      · rfl
      · omega
  | union types ih =>
      obtain ⟨levels, rfl⟩ := Nat.exists_eq_add_one.2 (Nat.zero_lt_of_lt h)
      rw [toValue, Value.depth_choice, Value.depth] at h
      have hread : ofValueWithin? (levels + 1) (union types).toValue =
          union <$> (Value.array (toValues types)).list? (ofValueWithin? levels) := rfl
      rw [hread, list?_toValues fun type htype hdepth => ih type htype hdepth]
      · rfl
      · omega
  | nullable inner ih =>
      obtain ⟨levels, rfl⟩ := Nat.exists_eq_add_one.2 (Nat.zero_lt_of_lt h)
      rw [toValue, Value.depth_choice] at h
      have hread : ofValueWithin? (levels + 1) (nullable inner).toValue =
          nullable <$> ofValueWithin? levels inner.toValue := rfl
      rw [hread, ih (by omega)]
      rfl

@[simp] theorem ofValue?_toValue
    (type : IdlType) :
    ofValue? type.toValue = some type :=
  ofValueWithin?_toValue type (Nat.lt_succ_self _)

theorem isPrintable_toValue
    (type : IdlType) :
    type.toValue.IsPrintable := by
  induction type using induction_of_parts with
  | named name =>
      exact Value.isPrintable_choice _ (.string name)
  | generic name args ih =>
      have hargs : (Value.array (toValues args)).IsPrintable := by
        rw [toValues_eq_map]
        exact .array (List.forall_mem_map.2 ih)
      exact Value.isPrintable_choice _ (.object (by simp [hargs, Value.IsPrintable.string name]))
  | union types ih =>
      rw [toValue, toValues_eq_map]
      exact Value.isPrintable_choice _ (.array (List.forall_mem_map.2 ih))
  | nullable inner ih =>
      exact Value.isPrintable_choice _ ih

end IdlType

namespace Argument

@[simp] theorem ofValue?_toValue
    (argument : Argument) :
    ofValue? argument.toValue = some argument := by
  have hread : ofValue? argument.toValue =
      (do
        let type ← IdlType.ofValue? argument.type.toValue
        return ⟨argument.name, type, argument.optional, argument.variadic⟩) := rfl
  rw [hread, IdlType.ofValue?_toValue]
  rfl

theorem isPrintable_toValue
    (argument : Argument) :
    argument.toValue.IsPrintable := by
  refine .object ?_
  simp [Value.IsPrintable.string, Value.IsPrintable.bool, argument.type.isPrintable_toValue]

end Argument

namespace AttributeValue

theorem toValue_ne_null
    (value : AttributeValue) :
    value.toValue ≠ .null := by
  cases value <;> exact nofun

theorem isPrintable_toValue
    (value : AttributeValue) :
    value.toValue.IsPrintable := by
  cases value with
  | wildcard =>
      exact .string _
  | identifierList _ | stringList _ =>
      exact Value.isPrintable_choice _ (Value.isPrintable_ofStrings _)
  | identifier _ | integer _ | decimal _ | string _ =>
      exact Value.isPrintable_choice _ (.string _)

end AttributeValue

namespace ExtendedAttribute

@[simp] theorem ofValue?_toValue
    (item : ExtendedAttribute) :
    ofValue? item.toValue = some item := by
  have hread : ofValue? item.toValue =
      (do
        let value ← Value.nullable? AttributeValue.ofValue?
          (.ofOption AttributeValue.toValue item.value)
        let arguments ← Value.list? Argument.ofValue? (.ofList Argument.toValue item.arguments)
        return ⟨item.name, value, arguments⟩) := rfl
  rw [hread, Value.nullable?_ofOption AttributeValue.ofValue?_toValue
    AttributeValue.toValue_ne_null, Value.list?_ofList Argument.ofValue?_toValue]
  rfl

theorem isPrintable_toValue
    (item : ExtendedAttribute) :
    item.toValue.IsPrintable := by
  refine .object ?_
  simp [Value.IsPrintable.string, Value.isPrintable_ofOption AttributeValue.isPrintable_toValue,
    Value.isPrintable_ofList Argument.isPrintable_toValue]

end ExtendedAttribute

theorem IdlType.toValue_ne_null
    (type : IdlType) :
    type.toValue ≠ .null := by
  cases type <;> exact nofun

namespace Member

@[simp] theorem ofValue?_toValue
    (member : Member) :
    ofValue? member.toValue = some member := by
  have hread : ofValue? member.toValue =
      (do
        let kind ← MemberKind.ofTag? member.kind.tag
        let name ← Value.nullable? Value.string? (.ofString? member.name)
        let special ← Value.nullable? (fun value => value.plainChoice?.bind Special.ofTag?)
          (.ofOption (fun special => .string (Special.tag special)) member.special)
        let type ← Value.nullable? IdlType.ofValue? (.ofOption IdlType.toValue member.type)
        let arguments ← Value.list? Argument.ofValue? (.ofList Argument.toValue member.arguments)
        let typeArgs ← Value.list? IdlType.ofValue? (.ofList IdlType.toValue member.typeArgs)
        let attributes ← Value.list? ExtendedAttribute.ofValue?
          (.ofList ExtendedAttribute.toValue member.attributes)
        let line ← (Value.ofUInt32 member.line).uint32?
        return ⟨kind, name, special, member.readonly, member.isAsync, type, arguments, typeArgs,
          attributes, line⟩) := rfl
  have hspecial : ∀ special : Special,
      (Value.string special.tag).plainChoice?.bind Special.ofTag? = some special :=
    Special.ofTag?_tag
  rw [hread, MemberKind.ofTag?_tag, Value.nullable?_ofString?,
    Value.nullable?_ofOption hspecial nofun,
    Value.nullable?_ofOption IdlType.ofValue?_toValue IdlType.toValue_ne_null,
    Value.list?_ofList Argument.ofValue?_toValue, Value.list?_ofList IdlType.ofValue?_toValue,
    Value.list?_ofList ExtendedAttribute.ofValue?_toValue, Value.uint32?_ofUInt32]
  rfl

theorem isPrintable_toValue
    (member : Member) :
    member.toValue.IsPrintable := by
  refine .object ?_
  simp [Value.IsPrintable.string, Value.IsPrintable.bool, Value.isPrintable_ofString?,
    Value.isPrintable_ofOption, IdlType.isPrintable_toValue,
    Value.isPrintable_ofList Argument.isPrintable_toValue,
    Value.isPrintable_ofList IdlType.isPrintable_toValue,
    Value.isPrintable_ofList ExtendedAttribute.isPrintable_toValue, Value.isPrintable_ofUInt32]

end Member

namespace Definition

@[simp] theorem ofValue?_toValue
    (definition : Definition) :
    ofValue? definition.toValue = some definition := by
  have hread : ofValue? definition.toValue =
      (do
        let kind ← DefinitionKind.ofTag? definition.kind.tag
        let inheritance ← Value.nullable? Value.string? (.ofString? definition.inheritance)
        let members ← Value.list? Member.ofValue? (.ofList Member.toValue definition.members)
        let attributes ← Value.list? ExtendedAttribute.ofValue?
          (.ofList ExtendedAttribute.toValue definition.attributes)
        let included ← Value.nullable? Value.string? (.ofString? definition.included)
        let type ← Value.nullable? IdlType.ofValue? (.ofOption IdlType.toValue definition.type)
        let arguments ← Value.list? Argument.ofValue?
          (.ofList Argument.toValue definition.arguments)
        let values ← (Value.ofStrings definition.values).strings?
        let line ← (Value.ofUInt32 definition.line).uint32?
        return ⟨kind, definition.name, definition.isPartial, inheritance, members, attributes,
          included, type, arguments, values, line⟩) := rfl
  rw [hread, DefinitionKind.ofTag?_tag, Value.nullable?_ofString?,
    Value.list?_ofList Member.ofValue?_toValue,
    Value.list?_ofList ExtendedAttribute.ofValue?_toValue, Value.nullable?_ofString?,
    Value.nullable?_ofOption IdlType.ofValue?_toValue IdlType.toValue_ne_null,
    Value.list?_ofList Argument.ofValue?_toValue, Value.strings?_ofStrings,
    Value.uint32?_ofUInt32]
  rfl

theorem isPrintable_toValue
    (definition : Definition) :
    definition.toValue.IsPrintable := by
  refine .object ?_
  simp [Value.IsPrintable.string, Value.IsPrintable.bool, Value.isPrintable_ofString?,
    Value.isPrintable_ofStrings, Value.isPrintable_ofOption IdlType.isPrintable_toValue,
    Value.isPrintable_ofList Member.isPrintable_toValue,
    Value.isPrintable_ofList Argument.isPrintable_toValue,
    Value.isPrintable_ofList ExtendedAttribute.isPrintable_toValue, Value.isPrintable_ofUInt32]

end Definition

namespace GlobalMember

@[simp] theorem ofValue?_toValue
    (item : GlobalMember) :
    ofValue? item.toValue = some item := by
  have hread : ofValue? item.toValue =
      (do
        let member ← Member.ofValue? item.member.toValue
        let targets ← (Value.ofStrings item.targets).strings?
        return ⟨member, item.mixin, targets⟩) := rfl
  rw [hread, Member.ofValue?_toValue, Value.strings?_ofStrings]
  rfl

theorem isPrintable_toValue
    (item : GlobalMember) :
    item.toValue.IsPrintable := by
  refine .object ?_
  simp [Value.IsPrintable.string, Member.isPrintable_toValue, Value.isPrintable_ofStrings]

end GlobalMember

namespace Merged

@[simp] theorem ofValue?_toValue
    (merged : Merged) :
    ofValue? merged.toValue = some merged := by
  have hread : ofValue? merged.toValue =
      (do
        let definitions ← Value.list? Definition.ofValue?
          (.ofList Definition.toValue merged.definitions)
        let globals ← Value.list? GlobalMember.ofValue?
          (.ofList GlobalMember.toValue merged.globals)
        return ⟨definitions, globals⟩) := rfl
  rw [hread, Value.list?_ofList Definition.ofValue?_toValue,
    Value.list?_ofList GlobalMember.ofValue?_toValue]
  rfl

theorem isPrintable_toValue
    (merged : Merged) :
    merged.toValue.IsPrintable := by
  refine .object ?_
  simp [Value.isPrintable_ofList Definition.isPrintable_toValue,
    Value.isPrintable_ofList GlobalMember.isPrintable_toValue]

end Merged

end WebIdl
end FeatureProbes
