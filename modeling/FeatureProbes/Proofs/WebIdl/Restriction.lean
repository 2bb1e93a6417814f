import FeatureProbes.Proofs.SortedMap
import FeatureProbes.Proofs.WebIdl.Contributions
import FeatureProbes.WebIdl.Exposure

/-!
# Restrictions of exposure

What the extended attribute for exposure says does not depend on the definition that has it: it
names some of the valid scopes.  A definition that has none can be reached nowhere, and a member
that has none wherever its definition can be reached.

A member of a merged definition was declared in a base, in a partial definition, in a mixin, or in a
partial definition of a mixin.  On its way it takes along the restriction of every container that it
moves out of, but only the first one that it meets counts.
-/

namespace FeatureProbes
namespace WebIdl

/-! ## Scopes that an attribute names -/

/-- An extended attribute for exposure names a scope. -/
inductive ExtendedAttribute.Names (valid : NameSet) (item : ExtendedAttribute) : String → Prop where
  | wildcard {scope : String}
      (hvalue : item.value = some .wildcard)
      (hscope : scope ∈ valid.keys) :
      Names valid item scope
  | identifier {name : String}
      (hvalue : item.value = some (.identifier name)) :
      Names valid item (scopeOfName name)
  | list {names : List String} {name : String}
      (hvalue : item.value = some (.identifierList names))
      (hname : name ∈ names) :
      Names valid item (scopeOfName name)

/-- A definition can be reached in a scope. -/
def Definition.ExposedIn
    (valid : NameSet)
    (definition : Definition)
    (scope : String) : Prop :=
  ∃ item, definition.attribute? "Exposed" = some item ∧ item.Names valid scope

section Scopes

variable {kind owner scope : String} {attributes : List ExtendedAttribute} {valid scopes : NameSet}

theorem mem_scopesOfNames_iff
    {names : List String}
    (h : scopesOfNames kind owner valid names = .ok scopes) :
    (∀ scope ∈ scopes.keys, scope ∈ valid.keys) ∧
      ∀ scope, scope ∈ scopes.keys ↔ ∃ name ∈ names, scopeOfName name = scope := by
  rw [scopesOfNames] at h
  cases hfind : (names.map scopeOfName).find? fun scope => !valid.contains scope with
  | some invalid =>
      rw [hfind] at h
      cases h
  | none =>
      rw [hfind] at h
      cases h
      have hmem : ∀ scope, scope ∈ (NameSet.ofNames (names.map scopeOfName)).keys ↔
          ∃ name ∈ names, scopeOfName name = scope := by
        intro scope
        rw [NameSet.mem_keys_ofNames_iff, List.mem_map]
      refine ⟨?_, hmem⟩
      intro scope hscope
      rw [NameSet.mem_keys_ofNames_iff] at hscope
      rw [List.find?_eq_none] at hfind
      rw [← SortedMap.contains_iff]
      simpa using hfind scope hscope

theorem ExtendedAttribute.names_iff
    {item : ExtendedAttribute} :
    item.Names valid scope ↔
      item.value = some .wildcard ∧ scope ∈ valid.keys ∨
        (∃ name, item.value = some (.identifier name) ∧ scopeOfName name = scope) ∨
          ∃ names, item.value = some (.identifierList names) ∧
            ∃ name ∈ names, scopeOfName name = scope := by
  constructor
  · intro h
    cases h with
    | wildcard hvalue hscope =>
        exact Or.inl ⟨hvalue, hscope⟩
    | identifier hvalue =>
        exact Or.inr (Or.inl ⟨_, hvalue, rfl⟩)
    | list hvalue hname =>
        exact Or.inr (Or.inr ⟨_, hvalue, _, hname, rfl⟩)
  · rintro (⟨hvalue, hscope⟩ | ⟨name, hvalue, rfl⟩ | ⟨names, hvalue, name, hname, rfl⟩)
    · exact .wildcard hvalue hscope
    · exact .identifier hvalue
    · exact .list hvalue hname

/-- Where scopes are found, they are valid, and they are those that the attribute names. -/
theorem mem_exposedScopes_iff
    (h : exposedScopes kind owner attributes valid = .ok scopes) :
    (∀ scope ∈ scopes.keys, scope ∈ valid.keys) ∧
      ∃ item, findAttribute attributes "Exposed" = some item ∧
        ∀ scope, scope ∈ scopes.keys ↔ item.Names valid scope := by
  rw [exposedScopes] at h
  cases hitem : findAttribute attributes "Exposed" with
  | none =>
      rw [hitem] at h
      cases h
  | some item =>
      simp only [hitem] at h
      split at h
      · rename_i hvalue
        cases h
        exact ⟨fun scope hscope => hscope, item, rfl, by simp [ExtendedAttribute.names_iff, hvalue]⟩
      · rename_i name hvalue
        obtain ⟨hvalid, hmem⟩ := mem_scopesOfNames_iff h
        exact ⟨hvalid, item, rfl, by simp [hmem, ExtendedAttribute.names_iff, hvalue]⟩
      · rename_i names hvalue
        obtain ⟨hvalid, hmem⟩ := mem_scopesOfNames_iff h
        exact ⟨hvalid, item, rfl, by simp [hmem, ExtendedAttribute.names_iff, hvalue]⟩
      · cases h

/-- Where a definition can be reached is where it is exposed. -/
theorem mem_exposure_iff
    {definition : Definition}
    (h : definition.exposure valid = .ok scopes) :
    scope ∈ scopes.keys ↔ definition.ExposedIn valid scope := by
  obtain ⟨-, item, hitem, hmem⟩ := mem_exposedScopes_iff h
  have hattribute : definition.attribute? "Exposed" = some item := hitem
  rw [hmem, Definition.ExposedIn, hattribute]
  simp

theorem valid_of_mem_exposure
    {definition : Definition}
    (h : definition.exposure valid = .ok scopes)
    (hscope : scope ∈ scopes.keys) :
    scope ∈ valid.keys :=
  (mem_exposedScopes_iff h).1 scope hscope

end Scopes

/-! ## Declarations -/

/-- A member as it was declared, and the definitions that it moves out of, the first one first. -/
structure Declaration where
  member : Member
  containers : List Definition

namespace Declaration

/-- The member at the end of its way. -/
def moved (declaration : Declaration) : Member :=
  declaration.containers.foldl (fun member container => container.stamp member) declaration.member

/-- The restriction of the member itself, else that of the first container that has one. -/
def restriction? (declaration : Declaration) : Option ExtendedAttribute :=
  (findAttribute declaration.member.attributes "Exposed").or
    (declaration.containers.findSome? fun container => container.attribute? "Exposed")

/-- The restriction of a declaration, if there is one, names a scope. -/
def Permits
    (valid : NameSet)
    (declaration : Declaration)
    (scope : String) : Prop :=
  ∀ item, declaration.restriction? = some item → item.Names valid scope

end Declaration

theorem findAttribute_append
    (first second : List ExtendedAttribute)
    (name : String) :
    findAttribute (first ++ second) name =
      (findAttribute first name).or (findAttribute second name) :=
  List.find?_append

theorem name_of_findAttribute
    {attributes : List ExtendedAttribute} {item : ExtendedAttribute} {name : String}
    (h : findAttribute attributes name = some item) :
    item.name = name := by
  simpa using List.find?_some h

/-- A container leaves everything of a member but its attributes. -/
theorem Definition.stamp_eq
    (container : Definition)
    (member : Member) :
    ∃ attributes, container.stamp member = { member with attributes := attributes } := by
  rw [stamp]
  split
  · exact ⟨member.attributes, rfl⟩
  · exact ⟨_, rfl⟩

theorem Definition.findAttribute_stamp
    (container : Definition)
    (member : Member) :
    findAttribute (container.stamp member).attributes "Exposed" =
      (findAttribute member.attributes "Exposed").or (container.attribute? "Exposed") := by
  rw [stamp, Member.hasAttribute]
  cases hown : findAttribute member.attributes "Exposed" with
  | some item =>
      simp [hown]
  | none =>
      rw [Option.isSome_none, if_neg Bool.false_ne_true, findAttribute_append, hown]
      cases hitem : container.attribute? "Exposed" with
      | none =>
          rfl
      | some item =>
          have hname : item.name = "Exposed" := name_of_findAttribute hitem
          simp [findAttribute, hname]

/-- A container brings no attribute for anything else. -/
theorem Definition.findAttribute_stamp_of_ne
    {name : String}
    (container : Definition)
    (member : Member)
    (hname : name ≠ "Exposed") :
    findAttribute (container.stamp member).attributes name =
      findAttribute member.attributes name := by
  rw [stamp]
  split
  · rfl
  · rw [findAttribute_append]
    cases hitem : container.attribute? "Exposed" with
    | none =>
        simp [findAttribute]
    | some item =>
        have hitemName : item.name = "Exposed" := name_of_findAttribute hitem
        simp [findAttribute, hitemName, Ne.symm hname]

namespace Declaration

theorem moved_eq
    (declaration : Declaration) :
    ∃ attributes, declaration.moved = { declaration.member with attributes := attributes } := by
  obtain ⟨member, containers⟩ := declaration
  induction containers generalizing member with
  | nil =>
      exact ⟨member.attributes, rfl⟩
  | cons container containers ih =>
      obtain ⟨stamped, hstamped⟩ := container.stamp_eq member
      obtain ⟨attributes, hmoved⟩ := ih (container.stamp member)
      rw [hstamped] at hmoved
      refine ⟨attributes, ?_⟩
      rw [← hmoved, ← hstamped]
      rfl

/-- What a moved member is restricted to is the restriction of its declaration. -/
theorem findAttribute_moved
    (declaration : Declaration) :
    findAttribute declaration.moved.attributes "Exposed" = declaration.restriction? := by
  obtain ⟨member, containers⟩ := declaration
  induction containers generalizing member with
  | nil =>
      simp [moved, restriction?]
  | cons container containers ih =>
      have hrest := ih (container.stamp member)
      rw [restriction?, container.findAttribute_stamp] at hrest
      change findAttribute (⟨container.stamp member, containers⟩ : Declaration).moved.attributes _
        = _
      rw [hrest, restriction?, Option.or_assoc]
      cases hitem : container.attribute? "Exposed" with
      | none =>
          simp [hitem]
      | some item =>
          simp [hitem]

theorem findAttribute_moved_of_ne
    {name : String}
    (declaration : Declaration)
    (hname : name ≠ "Exposed") :
    findAttribute declaration.moved.attributes name =
      findAttribute declaration.member.attributes name := by
  obtain ⟨member, containers⟩ := declaration
  induction containers generalizing member with
  | nil =>
      rfl
  | cons container containers ih =>
      exact (ih (container.stamp member)).trans (container.findAttribute_stamp_of_ne member hname)

end Declaration

/-- The declarations of the members of a base and of its partial definitions. -/
def ownDeclarations
    (all : List Definition)
    (base : Definition) :
    List Declaration :=
  base.members.map (fun member => ⟨member, []⟩) ++
    (partsOf all base).flatMap fun part => part.members.map fun member => ⟨member, [part]⟩

/-- The declarations that a mixin brings to another definition. -/
def mixinDeclarations
    (all : List Definition)
    (mixin : Definition) :
    List Declaration :=
  (ownDeclarations all mixin).map fun declaration =>
    ⟨declaration.member, declaration.containers ++ [mixin]⟩

/-- All declarations of members of a base. -/
def declarationsOf
    (all : List Definition)
    (base : Definition) :
    List Declaration :=
  ownDeclarations all base ++ (mixinsOf all base).flatMap (mixinDeclarations all)

section Members

variable {all : List Definition}

theorem map_moved_ownDeclarations
    (base : Definition) :
    (ownDeclarations all base).map Declaration.moved = (withParts all base).members := by
  simp only [ownDeclarations, List.map_append, List.map_map, List.map_flatMap, withParts]
  congr 1
  exact List.map_id _

theorem map_moved_mixinDeclarations
    (mixin : Definition) :
    (mixinDeclarations all mixin).map Declaration.moved =
      (withParts all mixin).members.map mixin.stamp := by
  rw [← map_moved_ownDeclarations, mixinDeclarations, List.map_map, List.map_map]
  refine List.map_congr_left ?_
  intro declaration _
  simp [Declaration.moved]

/-- The members of a merged definition are its declarations, moved. -/
theorem map_moved_declarationsOf
    (base : Definition) :
    (declarationsOf all base).map Declaration.moved = (flattened all base).members := by
  rw [declarationsOf, List.map_append, map_moved_ownDeclarations, List.map_flatMap]
  simp only [map_moved_mixinDeclarations]
  simp [flattened, contributions, withParts, List.flatMap_def]

end Members

end WebIdl
end FeatureProbes
