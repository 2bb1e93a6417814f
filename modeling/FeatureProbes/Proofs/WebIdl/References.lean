import FeatureProbes.Proofs.WebIdl.Encoding
import FeatureProbes.WebIdl.Validation

/-!
# References to types

A name stands for a type where a definition inherits from it, and where it is a leaf of a type that
is written in a definition or in a global member: as the type of the definition or of one of its
members, as a parameter of a member, or as the type of an argument, be it of the definition, of one
of its extended attributes or of a member.

Merged definitions are valid just if all interfaces and namespaces say where they are exposed and
all these names are known.  An interface or a namespace that does not say so is reported before any
unknown name.
-/

namespace FeatureProbes
namespace WebIdl

/-! ## Names in types -/

namespace IdlType

/-- A name is a leaf of a type. -/
inductive Mentions (name : String) : IdlType → Prop
  | named : Mentions name (.named name)
  | generic
      {base : String} {args : List IdlType} {arg : IdlType}
      (hmem : arg ∈ args)
      (h : Mentions name arg) :
      Mentions name (.generic base args)
  | union
      {types : List IdlType} {type : IdlType}
      (hmem : type ∈ types)
      (h : Mentions name type) :
      Mentions name (.union types)
  | nullable
      {inner : IdlType}
      (h : Mentions name inner) :
      Mentions name (.nullable inner)

variable {name : String}

theorem mem_namesOfList_iff
    {types : List IdlType} :
    name ∈ namesOfList types ↔ ∃ type ∈ types, name ∈ type.names := by
  induction types with
  | nil =>
      simp [namesOfList]
  | cons type more ih =>
      rw [namesOfList, List.mem_append, ih]
      simp

/-- The names of a type are its leaves, at any depth. -/
theorem mem_names_iff
    {type : IdlType} :
    name ∈ type.names ↔ type.Mentions name := by
  induction type using induction_of_parts with
  | named own =>
      rw [names, List.mem_singleton]
      constructor
      · rintro rfl
        exact .named
      · rintro ⟨⟩
        rfl
  | generic base args ih =>
      rw [names, mem_namesOfList_iff]
      constructor
      · rintro ⟨arg, hmem, hname⟩
        exact .generic hmem ((ih arg hmem).1 hname)
      · rintro (_ | @⟨_, _, arg, hmem, h⟩)
        exact ⟨arg, hmem, (ih arg hmem).2 h⟩
  | union types ih =>
      rw [names, mem_namesOfList_iff]
      constructor
      · rintro ⟨type, hmem, hname⟩
        exact .union hmem ((ih type hmem).1 hname)
      · rintro (_ | _ | @⟨_, type, hmem, h⟩)
        exact ⟨type, hmem, (ih type hmem).2 h⟩
  | nullable inner ih =>
      rw [names, ih]
      constructor
      · exact .nullable
      · rintro (_ | _ | _ | h)
        exact h

end IdlType

/-! ## Types in definitions -/

/-- A type is written in a member. -/
inductive Member.Writes (member : Member) : IdlType → Prop
  | own
      {type : IdlType}
      (h : member.type = some type) :
      Writes member type
  | parameter
      {type : IdlType}
      (h : type ∈ member.typeArgs) :
      Writes member type
  | argument
      {argument : Argument}
      (h : argument ∈ member.arguments) :
      Writes member argument.type

/-- A type is written in a definition. -/
inductive Definition.Writes (definition : Definition) : IdlType → Prop
  | own
      {type : IdlType}
      (h : definition.type = some type) :
      Writes definition type
  | argument
      {argument : Argument}
      (h : argument ∈ definition.arguments) :
      Writes definition argument.type
  | attributeArgument
      {item : ExtendedAttribute} {argument : Argument}
      (hitem : item ∈ definition.attributes)
      (h : argument ∈ item.arguments) :
      Writes definition argument.type
  | member
      {member : Member} {type : IdlType}
      (hmember : member ∈ definition.members)
      (h : member.Writes type) :
      Writes definition type

theorem Member.mem_types_iff
    {member : Member} {type : IdlType} :
    type ∈ member.types ↔ member.Writes type := by
  simp only [types, List.mem_append, List.mem_map, Option.mem_toList]
  constructor
  · rintro ((h | h) | ⟨argument, h, rfl⟩)
    · exact .own h
    · exact .parameter h
    · exact .argument h
  · rintro (h | h | @⟨argument, h⟩)
    · exact Or.inl (Or.inl h)
    · exact Or.inl (Or.inr h)
    · exact Or.inr ⟨argument, h, rfl⟩

theorem Member.mem_typeNames_iff
    {member : Member} {name : String} :
    name ∈ member.typeNames ↔ ∃ type, member.Writes type ∧ type.Mentions name := by
  simp only [typeNames, List.mem_flatMap, mem_types_iff, IdlType.mem_names_iff]

theorem Definition.mem_typeNames_iff
    {definition : Definition} {name : String} :
    name ∈ definition.typeNames ↔
      definition.inheritance = some name ∨
        ∃ type, definition.Writes type ∧ type.Mentions name := by
  simp only [typeNames, List.mem_append, List.mem_flatMap, List.mem_map, Option.mem_toList,
    IdlType.mem_names_iff, Member.mem_typeNames_iff]
  constructor
  · rintro ((h | ⟨type, htype, h⟩) | ⟨member, hmember, type, htype, h⟩)
    · exact Or.inl h
    · refine Or.inr ⟨type, ?_, h⟩
      rcases htype with
        (htype | ⟨argument, hargument, rfl⟩) | ⟨item, hitem, argument, hargument, rfl⟩
      · exact .own htype
      · exact .argument hargument
      · exact .attributeArgument hitem hargument
    · exact Or.inr ⟨type, .member hmember htype, h⟩
  · rintro (h | ⟨type, htype, h⟩)
    · exact Or.inl (Or.inl h)
    · cases htype with
      | own htype =>
          exact Or.inl (Or.inr ⟨type, Or.inl (Or.inl htype), h⟩)
      | argument hargument =>
          exact Or.inl (Or.inr ⟨_, Or.inl (Or.inr ⟨_, hargument, rfl⟩), h⟩)
      | attributeArgument hitem hargument =>
          exact Or.inl (Or.inr ⟨_, Or.inr ⟨_, hitem, _, hargument, rfl⟩, h⟩)
      | member hmember htype =>
          exact Or.inr ⟨_, hmember, type, htype, h⟩

/-! ## Merged definitions -/

/-- An interface or a namespace does not say where it is exposed. -/
def Definition.IsHidden
    (definition : Definition) : Prop :=
  (definition.kind = .interface ∨ definition.kind = .nameSpace) ∧
    ∀ item ∈ definition.attributes, item.name ≠ "Exposed"

namespace Merged

/-- A name stands for a type somewhere in merged definitions. -/
inductive Refers (merged : Merged) (name : String) : Prop
  | inheritance
      {definition : Definition}
      (hmem : definition ∈ merged.definitions)
      (h : definition.inheritance = some name)
  | definition
      {definition : Definition} {type : IdlType}
      (hmem : definition ∈ merged.definitions)
      (htype : definition.Writes type)
      (h : type.Mentions name)
  | globalMember
      {item : GlobalMember} {type : IdlType}
      (hmem : item ∈ merged.globals)
      (htype : item.member.Writes type)
      (h : type.Mentions name)

/-- A name is that of a definition or of a type that needs no definition. -/
def Knows
    (merged : Merged)
    (name : String) : Prop :=
  (∃ definition ∈ merged.definitions, definition.name = name) ∨
    name ∈ builtinTypes ∨ name ∈ looseTypes

variable {merged : Merged} {name : String}

theorem mem_typeNames_iff :
    name ∈ merged.typeNames ↔ merged.Refers name := by
  simp only [typeNames, List.mem_append, List.mem_flatMap, Definition.mem_typeNames_iff,
    Member.mem_typeNames_iff]
  constructor
  · rintro (⟨definition, hmem, h | ⟨type, htype, h⟩⟩ | ⟨item, hmem, type, htype, h⟩)
    · exact .inheritance hmem h
    · exact .definition hmem htype h
    · exact .globalMember hmem htype h
  · rintro (⟨hmem, h⟩ | ⟨hmem, htype, h⟩ | ⟨hmem, htype, h⟩)
    · exact Or.inl ⟨_, hmem, Or.inl h⟩
    · exact Or.inl ⟨_, hmem, Or.inr ⟨_, htype, h⟩⟩
    · exact Or.inr ⟨_, hmem, _, htype, h⟩

theorem mem_knownTypes_iff :
    name ∈ merged.knownTypes ↔ merged.Knows name := by
  simp only [knownTypes, List.mem_append, List.mem_map, Knows, or_assoc]

theorem lacksExposure_iff
    {definition : Definition} :
    lacksExposure definition = true ↔ definition.IsHidden := by
  have hkind : definition.kind.isProbed = true ↔
      definition.kind = .interface ∨ definition.kind = .nameSpace := by
    cases definition.kind <;> decide
  have hattribute : definition.hasAttribute "Exposed" = false ↔
      ∀ item ∈ definition.attributes, item.name ≠ "Exposed" := by
    rw [Definition.hasAttribute, Definition.attribute?, findAttribute, Bool.eq_false_iff,
      Ne, List.find?_isSome]
    simp
  rw [lacksExposure, Bool.and_eq_true, Bool.not_eq_true', hkind, hattribute, Definition.IsHidden]

/-- The first interface or namespace that does not say where it is exposed is reported, whatever
names are unknown. -/
theorem validate_of_hidden
    {before after : List Definition} {definition : Definition}
    (hsplit : merged.definitions = before ++ definition :: after)
    (hbefore : ∀ earlier ∈ before, ¬earlier.IsHidden)
    (h : definition.IsHidden) :
    merged.validate =
      .error (.missingExposed definition.kind definition.name definition.line) := by
  have hfirst : merged.definitions.find? lacksExposure = some definition := by
    refine List.find?_eq_some_iff_append.2 ⟨lacksExposure_iff.2 h, before, after, hsplit, ?_⟩
    intro earlier hearlier
    simpa using mt lacksExposure_iff.1 (hbefore earlier hearlier)
  rw [validate, hfirst]

/-- Where no definition is hidden, the first name that is not known decides. -/
theorem validate_of_not_hidden
    (h : ∀ definition ∈ merged.definitions, ¬definition.IsHidden) :
    merged.validate = .ok () ∧ (∀ name, merged.Refers name → merged.Knows name) ∨
      ∃ name, merged.validate = .error (.unknownType name) ∧
        merged.Refers name ∧ ¬merged.Knows name := by
  have hnone : merged.definitions.find? lacksExposure = none := by
    refine List.find?_eq_none.2 fun definition hmem => ?_
    rw [lacksExposure_iff]
    exact h definition hmem
  rw [validate, hnone]
  cases hfound : merged.typeNames.find? fun name => !merged.knownTypes.contains name with
  | none =>
      refine Or.inl ⟨rfl, fun name hname => ?_⟩
      have hknown := List.find?_eq_none.1 hfound name (mem_typeNames_iff.2 hname)
      exact mem_knownTypes_iff.1 (by simpa using hknown)
  | some name =>
      refine Or.inr ⟨name, rfl, mem_typeNames_iff.1 (List.mem_of_find?_eq_some hfound), ?_⟩
      rw [← mem_knownTypes_iff]
      simpa using List.find?_some hfound

/-- Merged definitions are valid just if no interface or namespace is hidden and every name that
stands for a type is known.  Of the errors, that of the first hidden definition comes before all
others, and the others tell a name that stands for a type and is not known. -/
theorem validate_eq_ok_iff
    (merged : Merged) :
    (merged.validate = .ok () ↔
        (∀ definition ∈ merged.definitions, ¬definition.IsHidden) ∧
          ∀ name, merged.Refers name → merged.Knows name) ∧
      (∀ before definition after, merged.definitions = before ++ definition :: after →
        (∀ earlier ∈ before, ¬earlier.IsHidden) → definition.IsHidden →
        merged.validate =
          .error (.missingExposed definition.kind definition.name definition.line)) ∧
      ((∀ definition ∈ merged.definitions, ¬definition.IsHidden) →
        ∀ error, merged.validate = .error error →
          ∃ name, error = .unknownType name ∧ merged.Refers name ∧ ¬merged.Knows name) := by
  refine ⟨⟨fun hvalid => ?_, ?_⟩, ?_, ?_⟩
  · have hshown : ∀ definition ∈ merged.definitions, ¬definition.IsHidden := by
      intro definition hmem hhidden
      rw [validate] at hvalid
      split at hvalid
      · cases hvalid
      · rename_i hnone
        exact List.find?_eq_none.1 hnone definition hmem (lacksExposure_iff.2 hhidden)
    refine ⟨hshown, ?_⟩
    rcases validate_of_not_hidden hshown with ⟨-, hknown⟩ | ⟨name, herror, -⟩
    · exact hknown
    · cases hvalid.symm.trans herror
  · rintro ⟨hshown, hknown⟩
    rcases validate_of_not_hidden hshown with ⟨hvalid, -⟩ | ⟨name, -, hrefers, hunknown⟩
    · exact hvalid
    · exact absurd (hknown name hrefers) hunknown
  · intro before definition after hsplit hbefore h
    exact validate_of_hidden hsplit hbefore h
  · intro hshown error herror
    rcases validate_of_not_hidden hshown with ⟨hvalid, -⟩ | ⟨name, hname, hrefers, hunknown⟩
    · cases hvalid.symm.trans herror
    · cases herror.symm.trans hname
      exact ⟨name, rfl, hrefers, hunknown⟩

/-- An interface with a factory function, one of whose arguments names a type that is nowhere
defined. -/
def studio : Merged where
  definitions :=
    [{ Definition.ofKind .interface "Studio" with
        attributes :=
          [⟨"Exposed", some .wildcard, []⟩,
            ⟨"LegacyFactoryFunction", some (.identifier "Image"),
              [⟨"source", .generic "sequence"
                  [.union [.named "long", .nullable (.named "Palette")]], false, false⟩]⟩] }]
  globals := []

/-- The name is found below a generic type, a union and a null mark in an extended attribute. -/
theorem validate_studio :
    studio.validate = .error (.unknownType "Palette") ∧
      studio.Refers "Palette" ∧ ¬studio.Knows "Palette" := by
  have hshown : ∀ definition ∈ studio.definitions, ¬definition.IsHidden := by
    intro definition hmem
    rw [← lacksExposure_iff, List.mem_singleton.1 hmem]
    decide
  have hinvalid : studio.validate = .error (.unknownType "Palette") := rfl
  obtain ⟨name, hname, hrefers, hunknown⟩ :=
    (validate_eq_ok_iff studio).2.2 hshown _ hinvalid
  cases hname
  exact ⟨hinvalid, hrefers, hunknown⟩

end Merged
end WebIdl
end FeatureProbes
