import FeatureProbes.Json.Decode
import FeatureProbes.Json.Encode
import FeatureProbes.Proofs.SortedMap

/-!
# Members of values

A value is made of the values that are its items or members, so a property that goes from these to
the value holds of every value.  Of members with the same name the last one is looked up, and
normalizing keeps just these.
-/

namespace FeatureProbes
namespace Json
namespace Value

/-- What holds of a value if it holds of its items or of the values of its members holds of every
value. -/
theorem induction_of_parts
    {motive : Value → Prop}
    (array : ∀ items, (∀ item ∈ items, motive item) → motive (array items))
    (object : ∀ members, (∀ member ∈ members, motive member.2) → motive (object members))
    (plain : ∀ value, (∀ items, value ≠ .array items) → (∀ members, value ≠ .object members) →
      motive value)
    (value : Value) :
    motive value := by
  refine @Value.rec motive (fun items => ∀ item ∈ items, motive item)
    (fun members => ∀ member ∈ members, motive member.2) (fun member => motive member.2)
    ?null ?bool ?integer ?decimal ?string ?array ?object ?nil ?cons ?nil' ?cons' ?member value
  case array =>
    exact array
  case object =>
    exact object
  case nil | nil' =>
    exact nofun
  case cons | cons' =>
    exact fun _ _ hfirst hmore => List.forall_mem_cons.2 ⟨hfirst, hmore⟩
  case member =>
    exact fun _ _ hvalue => hvalue
  case null =>
    exact plain _ nofun nofun
  all_goals
    exact fun _ => plain _ nofun nofun

/-! ## Lists -/

/-- The values for some items are, one by one, the values for each of them. -/
theorem mapM_eq_some_iff
    {α β : Type} {f : α → Option β} {items : List α} {values : List β} :
    items.mapM f = some values ↔
      List.Forall₂ (fun item value => f item = some value) items values := by
  induction items generalizing values with
  | nil =>
      rw [List.mapM_nil, List.forall₂_nil_left_iff]
      exact ⟨fun h => by cases h; rfl, fun h => h ▸ rfl⟩
  | cons item items ih =>
      rw [List.mapM_cons, Option.bind_eq_bind, Option.bind_eq_some_iff,
        List.forall₂_cons_left_iff]
      constructor
      · rintro ⟨head, hhead, h⟩
        obtain ⟨tail, htail, h⟩ := Option.bind_eq_some_iff.1 h
        cases h
        exact ⟨head, tail, hhead, ih.1 htail, rfl⟩
      · rintro ⟨head, tail, hhead, htail, rfl⟩
        exact ⟨head, hhead, Option.bind_eq_some_iff.2 ⟨tail, ih.2 htail, rfl⟩⟩

theorem string?_eq_some_iff
    {value : Value} {text : String} :
    value.string? = some text ↔ value = string text := by
  cases value <;> simp [string?]

theorem strings?_eq_some_iff
    {value : Value} {texts : List String} :
    value.strings? = some texts ↔ value = ofStrings texts := by
  cases value with
  | array items =>
      rw [strings?, list?, mapM_eq_some_iff, ofStrings, ofList, array.injEq,
        ← List.forall₂_eq_eq_eq, List.forall₂_map_right_iff]
      simp only [string?_eq_some_iff]
  | null | bool _ | integer _ | decimal _ | string _ | object _ =>
      simp [strings?, list?, ofStrings, ofList]

theorem normalize_eq_string_iff
    {value : Value} {text : String} :
    value.normalize = string text ↔ value = string text := by
  cases value <;> simp [normalize]

theorem normalizeItems_eq_map
    (items : List Value) :
    normalizeItems items = items.map normalize := by
  induction items with
  | nil =>
      rfl
  | cons item more ih =>
      rw [normalizeItems, ih, List.map_cons]

theorem normalize_eq_ofStrings_iff
    {value : Value} {texts : List String} :
    value.normalize = ofStrings texts ↔ value = ofStrings texts := by
  cases value with
  | array items =>
      rw [normalize, normalizeItems_eq_map, ofStrings, ofList, array.injEq, array.injEq,
        ← List.forall₂_eq_eq_eq, List.forall₂_map_left_iff, List.forall₂_map_right_iff]
      simp only [normalize_eq_string_iff]
      rw [← List.forall₂_map_right_iff, List.forall₂_eq_eq_eq]
  | null | bool _ | integer _ | decimal _ | string _ | object _ =>
      simp [normalize, ofStrings, ofList]

theorem normalize_eq_pair_iff
    {value first second : Value} :
    value.normalize = array [first, second] ↔
      ∃ first' second', value = array [first', second'] ∧ first'.normalize = first ∧
        second'.normalize = second := by
  cases value with
  | array items =>
      simp [normalize, normalizeItems_eq_map, List.map_eq_cons_iff]
  | null | bool _ | integer _ | decimal _ | string _ | object _ =>
      simp [normalize]

/-! ## Members -/

section Members

variable {members : List (String × Value)} {value item : Value} {key : String}

theorem member?_object
    (members : List (String × Value))
    (key : String) :
    (object members).member? key = (SortedMap.ofList members).get? key :=
  (SortedMap.get?_ofList members key).symm

/-- Only objects have members. -/
theorem exists_mem_of_member?
    (h : value.member? key = some item) :
    ∃ members, value = object members ∧ (key, item) ∈ members := by
  cases value with
  | object members =>
      rw [member?_object, SortedMap.get?_eq_some_iff] at h
      exact ⟨members, rfl, SortedMap.mem_of_mem_entries_ofList h⟩
  | null | bool _ | integer _ | decimal _ | string _ | array _ =>
      cases h

theorem normalizeMembers_eq_map
    (members : List (String × Value)) :
    normalizeMembers members = members.map fun member => (member.1, member.2.normalize) := by
  induction members with
  | nil =>
      rfl
  | cons member more ih =>
      rw [normalizeMembers, ih, List.map_cons]

theorem get?_ofList_normalizeMembers
    (members : List (String × Value))
    (key : String) :
    (SortedMap.ofList (normalizeMembers members)).get? key =
      ((object members).member? key).map normalize := by
  rw [SortedMap.get?_ofList, normalizeMembers_eq_map, ← List.map_reverse, List.find?_map,
    Option.map_map, member?, Option.map_map]
  rfl

theorem member?_normalize
    (value : Value)
    (key : String) :
    value.normalize.member? key = (value.member? key).map normalize := by
  cases value with
  | object members =>
      rw [normalize, member?_object, SortedMap.ofList_entries, get?_ofList_normalizeMembers]
  | null | bool _ | integer _ | decimal _ | string _ | array _ =>
      rfl

/-- The members that normalizing keeps are those that are looked up. -/
theorem normalize_object
    (members : List (String × Value)) :
    (object members).normalize =
      object (normalizeMembers (SortedMap.ofList members).entries) := by
  have hkept : SortedMap.ofList (normalizeMembers members) =
      (SortedMap.ofList members).mapValues normalize :=
    SortedMap.ext_get? fun key => by
      rw [get?_ofList_normalizeMembers, SortedMap.get?_mapValues, member?_object]
  rw [normalize, hkept, normalizeMembers_eq_map]
  rfl

end Members

end Value
end Json
end FeatureProbes
