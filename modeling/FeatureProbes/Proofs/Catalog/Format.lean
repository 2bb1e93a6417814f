import FeatureProbes.Proofs.Catalog.Ordered
import FeatureProbes.Proofs.Json.Values
import FeatureProbes.Proofs.Text.Affix

/-!
# The format of catalogs

Which documents are catalogs, told by the shapes of their values, and what a catalog has to have to
be the one of a document.  The names of the categories are free: at the top of a document only one
key is taken for the table of resources, and every other one is a category, with two low lines in
front or not.  Below the top keys of this form are the node's own.

The shapes are those of values that are not normalized; of members with the same name the last one
counts.  For each part of a node and for the table of resources it is shown that a normalized value
is read if it has the shape, and what it is read as.
-/

namespace FeatureProbes
namespace Catalog

open Json (Value)

/-! ## Shapes of values -/

/-- Keys that begin with two low lines. -/
def IsReserved (key : String) : Prop :=
  ∃ rest, key = "__" ++ rest

/-- A value is code, or `false` for none. -/
inductive IsCode : Value → Option String → Prop where
  | code (code : String) : IsCode (.string code) (some code)
  | none : IsCode (.bool false) none

/-- A value is one name, or a list of names. -/
inductive AreNames : Value → List String → Prop where
  | one (name : String) : AreNames (.string name) [name]
  | list (names : List String) : AreNames (.ofStrings names) names

/-- A value is an object of strings. -/
def AreExtras (value : Value) (extras : SortedMap String) : Prop :=
  (∃ members, value = .object members) ∧
    ∀ name, value.member? name = (extras.get? name).map .string

/-- A value has the shape that goes with a key of a node's own. -/
inductive IsOwnMember : String → Value → Prop where
  | base {value : Value} {code : Option String} (h : IsCode value code) :
      IsOwnMember "__base" value
  | test {value : Value} {code : Option String} (h : IsCode value code) :
      IsOwnMember "__test" value
  | resources {value : Value} {names : List String} (h : AreNames value names) :
      IsOwnMember "__resources" value
  | additional {value : Value} {extras : SortedMap String} (h : AreExtras value extras) :
      IsOwnMember "__additional" value

/-- A value is a node: a test, `false`, or members of its own and nodes below. -/
inductive IsNode : Value → Prop where
  | test (code : String) : IsNode (.string code)
  | kept : IsNode (.bool false)
  | mapping {members : List (String × Value)}
      (own : ∀ key value, (Value.object members).member? key = some value → IsReserved key →
        IsOwnMember key value)
      (below : ∀ key value, (Value.object members).member? key = some value → ¬IsReserved key →
        IsNode value) :
      IsNode (.object members)

/-- What a resource is made of: its kind, and the places or the script. -/
inductive Resource.Parts : Value → Value → Resource → Prop where
  | medium (kind : Medium) (places : List String) :
      Parts (.string kind.tag) (.ofStrings places) (.medium kind places)
  | object (script : String) : Parts (.string "instance") (.string script) (.object script)

/-- A value is a resource, with named parts or as the list of its parts. -/
inductive IsResource : Value → Resource → Prop where
  | record {members : List (String × Value)} {tag source : Value} {resource : Resource}
      (htag : (Value.object members).member? "type" = some tag)
      (hsource : (Value.object members).member? "src" = some source)
      (h : Resource.Parts tag source resource) :
      IsResource (.object members) resource
  | list {tag source : Value} {resource : Resource} (h : Resource.Parts tag source resource) :
      IsResource (.array [tag, source]) resource

/-- A value is a table of resources. -/
structure IsTable (value : Value) : Prop where
  object : ∃ members, value = .object members
  resources : ∀ name item, value.member? name = some item → ∃ resource, IsResource item resource

/-- A document is a catalog. -/
structure IsCatalog (document : Value) : Prop where
  object : ∃ members, document = .object members
  /-- A document may be without a table of resources. -/
  table : ∀ value, document.member? "__resources" = some value → IsTable value
  categories : ∀ key value, document.member? key = some value → key ≠ "__resources" →
    IsNode value

/-! ## Places in a document -/

/-- Some keys, none of them a node's own, lead from a value to another one. -/
inductive Leads : Value → List String → Value → Prop where
  | here (value : Value) : Leads value [] value
  | next {value item found : Value} {key : String} {keys : List String}
      (hkey : ¬IsReserved key)
      (hitem : value.member? key = some item)
      (h : Leads item keys found) :
      Leads value (key :: keys) found

/-- Some keys, of which the first one is a category, lead to a value of a document. -/
inductive LeadsFrom (document : Value) : List String → Value → Prop where
  | category {key : String} {keys : List String} {value found : Value}
      (hkey : key ≠ "__resources")
      (hvalue : document.member? key = some value)
      (h : Leads value keys found) :
      LeadsFrom document (key :: keys) found

/-- A node has what a value says about it. -/
structure Describes (value : Value) (node : Node) : Prop where
  base : ∀ code, node.base = some code ↔ value.member? "__base" = some (.string code)
  test : ∀ code, node.test = some code ↔
    value = .string code ∨ value.member? "__test" = some (.string code)
  useDefault : node.useDefault = true ↔
    value = .bool false ∨ value.member? "__test" = some (.bool false)
  resources : (value.member? "__resources" = none ∧ node.resources = []) ∨
    ∃ item, value.member? "__resources" = some item ∧ AreNames item node.resources
  additional : ∀ name code, node.additional.get? name = some code ↔
    ∃ item, value.member? "__additional" = some item ∧ item.member? name = some (.string code)

/-- A catalog has the nodes and the resources of a document and no others. -/
structure Loads (document : Value) (catalog : Catalog) : Prop where
  /-- The node above the categories has nothing of its own. -/
  root : catalog.root = { Node.empty with children := catalog.root.children }
  reached : ∀ keys value, LeadsFrom document keys value →
    ∃ node, Node.descendant? keys catalog.root = some node ∧ Describes value node
  only : ∀ keys node, keys ≠ [] → Node.descendant? keys catalog.root = some node →
    ∃ value, LeadsFrom document keys value ∧ Describes value node
  node? : ∀ keys, keys ≠ [] → (∀ key ∈ keys, '.' ∉ key.toList) →
    catalog.node? (Text.joinSegments keys) = Node.descendant? keys catalog.root
  resource? : ∀ name resource, catalog.resource? name = some resource ↔
    ∃ table value, document.member? "__resources" = some table ∧
      table.member? name = some value ∧ IsResource value resource
  ordered : catalog.IsOrdered

/-- The values that keys lead to from a node are nodes. -/
theorem IsNode.of_leads
    {value found : Value} {keys : List String}
    (h : IsNode value)
    (hleads : Leads value keys found) :
    IsNode found := by
  induction hleads with
  | here _ =>
      exact h
  | next hkey hitem _ ih =>
      cases h with
      | test _ | kept =>
          cases hitem
      | mapping _ below =>
          exact ih (below _ _ hitem hkey)

/-! ## Reading the parts of a node -/

theorem isOwnKey_iff
    {key : String} :
    isOwnKey key ↔ IsReserved key := by
  simp only [isOwnKey, Option.isSome_iff_exists, Text.dropStart?_eq_some_iff, IsReserved]

section Parts

variable {value : Value} {key : String}

theorem IsOwnMember.isReserved
    (h : IsOwnMember key value) :
    IsReserved key := by
  cases h with
  | base _ | test _ | resources _ | additional _ =>
      exact isOwnKey_iff.1 (by decide)

theorem readCode_normalize
    {code : Option String} :
    readCode key value.normalize = .ok code ↔ IsCode value code := by
  constructor
  · intro h
    cases value with
    | string code =>
        cases h
        exact .code code
    | bool flag =>
        cases flag with
        | false =>
            cases h
            exact .none
        | true =>
            cases h
    | null | integer _ | decimal _ | array _ | object _ =>
        cases h
  · rintro (⟨code⟩ | ⟨⟩)
    · rfl
    · rfl

theorem IsCode.eq_some_iff
    {code : Option String}
    (h : IsCode value code)
    (text : String) :
    code = some text ↔ value = .string text := by
  cases h <;> simp

theorem IsCode.isNone_iff
    {code : Option String}
    (h : IsCode value code) :
    code.isNone ↔ value = .bool false := by
  cases h <;> simp

theorem areNames_iff
    {names : List String} :
    AreNames value names ↔ (∃ name, value = .string name ∧ names = [name]) ∨
      value = .ofStrings names := by
  constructor
  · rintro (⟨name⟩ | ⟨names⟩)
    · exact Or.inl ⟨name, rfl, rfl⟩
    · exact Or.inr rfl
  · rintro (⟨name, rfl, rfl⟩ | rfl)
    · exact .one name
    · exact .list names

theorem readNames_eq_ok_iff
    {names : List String} :
    readNames key value = .ok names ↔
      (∃ name, value = .string name ∧ names = [name]) ∨ value = .ofStrings names := by
  rw [← Value.strings?_eq_some_iff]
  cases value with
  | string name =>
      simp [readNames, Value.strings?, Value.list?, eq_comm]
  | array items =>
      simp only [readNames, Value.strings?, Value.list?]
      split <;> simp_all
  | null | bool _ | integer _ | decimal _ | object _ =>
      simp [readNames, Value.strings?, Value.list?]

theorem readNames_normalize
    {names : List String} :
    readNames key value.normalize = .ok names ↔ AreNames value names := by
  rw [readNames_eq_ok_iff, areNames_iff, Value.normalize_eq_ofStrings_iff]
  simp only [Value.normalize_eq_string_iff]

end Parts

/-! ## Reading maps -/

section Entries

variable {α β ε : Type} {R : α → β → Prop} {f : String × α → Except ε (String × β)}
  {map : SortedMap α}

/-- Entries with the keys of a map are a map, and the values at each key go together. -/
theorem exists_of_forall₂_entries
    {entries : List (String × β)}
    (h : List.Forall₂ (fun entry entry' => entry'.1 = entry.1 ∧ R entry.2 entry'.2)
      map.entries entries) :
    ∃ result : SortedMap β, result.entries = entries ∧
      ∀ key, Option.Rel R (map.get? key) (result.get? key) := by
  have hkeys : map.keys = entries.map Prod.fst := by
    rw [SortedMap.keys, ← List.forall₂_eq_eq_eq, List.forall₂_map_left_iff,
      List.forall₂_map_right_iff]
    exact h.imp fun _ _ hentry => hentry.1.symm
  obtain ⟨result, rfl⟩ : ∃ result : SortedMap β, result.entries = entries :=
    ⟨⟨entries, List.pairwise_map.1 (hkeys ▸ map.keys_ascending)⟩, rfl⟩
  refine ⟨result, rfl, fun key => ?_⟩
  cases hvalue : map.get? key with
  | none =>
      have hnot : ¬(result.get? key).isSome := by
        rw [← SortedMap.mem_keys_iff, SortedMap.keys, ← hkeys, SortedMap.mem_keys_iff, hvalue]
        simp
      rw [Option.not_isSome_iff_eq_none.1 hnot]
      exact .none
  | some value =>
      obtain ⟨⟨_, found⟩, hfound, rfl, hrelated⟩ := (Reporting.exists_of_forall₂ h).2 _
        (SortedMap.get?_eq_some_iff.1 hvalue)
      rw [SortedMap.get?_eq_some_iff.2 hfound]
      exact .some hrelated

/-- Some value goes with each value of a map. -/
theorem exists_related_iff :
    (∃ result : SortedMap β, ∀ key, Option.Rel R (map.get? key) (result.get? key)) ↔
      ∀ key value, map.get? key = some value → ∃ found, R value found := by
  constructor
  · rintro ⟨result, h⟩ key value hvalue
    have hkey := h key
    rw [hvalue] at hkey
    cases hfound : result.get? key with
    | none =>
        rw [hfound] at hkey
        cases hkey
    | some found =>
        rw [hfound, Option.rel_some_some] at hkey
        exact ⟨found, hkey⟩
  · intro h
    have hpairs : ∀ entries : List (String × α), (∀ entry ∈ entries, ∃ found, R entry.2 found) →
        ∃ entries' : List (String × β), List.Forall₂
          (fun entry entry' => entry'.1 = entry.1 ∧ R entry.2 entry'.2) entries entries' := by
      intro entries hentries
      induction entries with
      | nil =>
          exact ⟨[], .nil⟩
      | cons entry entries ih =>
          obtain ⟨found, hfound⟩ := hentries entry List.mem_cons_self
          obtain ⟨entries', hrest⟩ := ih fun later hlater =>
            hentries later (List.mem_cons_of_mem _ hlater)
          exact ⟨(entry.1, found) :: entries', .cons ⟨rfl, hfound⟩ hrest⟩
    obtain ⟨entries, hentries⟩ := hpairs map.entries fun entry hentry =>
      h entry.1 entry.2 (SortedMap.get?_eq_some_iff.2 hentry)
    obtain ⟨result, -, hresult⟩ := exists_of_forall₂_entries hentries
    exact ⟨result, hresult⟩

variable
  (hread : ∀ key value entry, f (key, value) = .ok entry ↔ entry.1 = key ∧ R value entry.2)

include hread

/-- Where the entries of a map are read one by one and keep their keys, what is read is a map. -/
theorem exists_of_mapM_entries
    {entries : List (String × β)}
    (h : map.entries.mapM f = .ok entries) :
    ∃ result : SortedMap β, result.entries = entries ∧
      ∀ key, Option.Rel R (map.get? key) (result.get? key) :=
  exists_of_forall₂_entries
    ((Reporting.mapM_eq_ok_iff.1 h).imp fun _ _ hentry => (hread _ _ _).1 hentry)

/-- What is read is known by the values that go together. -/
theorem mapM_entries_iff
    {result : SortedMap β} :
    map.entries.mapM f = .ok result.entries ↔
      ∀ key, Option.Rel R (map.get? key) (result.get? key) := by
  constructor
  · intro h
    obtain ⟨result', hentries, hrelated⟩ := exists_of_mapM_entries hread h
    rwa [← SortedMap.ofList_entries result, ← hentries, SortedMap.ofList_entries]
  · intro h
    have hall : ∀ entry ∈ map.entries, ∃ entry', f entry = .ok entry' := by
      rintro ⟨key, value⟩ hentry
      obtain ⟨found, hfound⟩ := exists_related_iff.1 ⟨result, h⟩ key value
        (SortedMap.get?_eq_some_iff.2 hentry)
      exact ⟨(key, found), (hread _ _ _).2 ⟨rfl, hfound⟩⟩
    obtain ⟨entries, hentries⟩ := Reporting.exists_mapM_eq_ok_iff.2 hall
    obtain ⟨read, rfl, hrelated⟩ := exists_of_mapM_entries hread hentries
    -- What is read and what is given go together with the same values, so they are the same.
    have hunique : ∀ {value found found'}, R value found → R value found' → found = found' := by
      intro value found found' hfound hfound'
      have hsame := ((hread "" value ("", found)).2 ⟨rfl, hfound⟩).symm.trans
        ((hread "" value ("", found')).2 ⟨rfl, hfound'⟩)
      cases hsame
      rfl
    have hsame : read = result := SortedMap.ext_get? fun key => by
      have hboth := And.intro (hrelated key) (h key)
      generalize map.get? key = value, read.get? key = found, result.get? key = found' at hboth ⊢
      obtain ⟨hfound | _, hfound' | _⟩ := hboth
      · rw [hunique hfound hfound']
      · rfl
    rw [hentries, hsame]

end Entries

/-- Where at most one value goes with each value, what is looked up is known. -/
theorem eq_some_iff_of_rel
    {α β : Type} {R : α → β → Prop} {source : Option α} {target : Option β} {found : β}
    (h : Option.Rel R source target)
    (hunique : ∀ {value found found'}, R value found → R value found' → found = found') :
    target = some found ↔ ∃ value, source = some value ∧ R value found := by
  cases h with
  | none =>
      simp
  | @some value found' hrelated =>
      simp only [Option.some.injEq, exists_eq_left']
      exact ⟨fun heq => heq ▸ hrelated, hunique hrelated⟩

theorem keyed_eq_ok_iff
    {β ε : Type} {read : Value → Except ε β} {key : String} {value : Value}
    {entry : String × β} :
    (do return (key, ← read value)) = Except.ok entry ↔
      entry.1 = key ∧ read value = .ok entry.2 := by
  obtain ⟨key', found⟩ := entry
  rw [Reporting.bind_eq_ok_iff]
  constructor
  · rintro ⟨_, hfound, ⟨⟩⟩
    exact ⟨rfl, hfound⟩
  · rintro ⟨rfl, hfound⟩
    exact ⟨found, hfound, rfl⟩

/-- What is read of the members of an object, each by itself. -/
theorem readMembers_iff
    {β ε : Type} {R R' : Value → β → Prop} {f : String × Value → Except ε (String × β)}
    {members : List (String × Value)} {result : SortedMap β}
    (hread : ∀ key item entry, f (key, item) = .ok entry ↔ entry.1 = key ∧ R item entry.2)
    (hnormalize : ∀ item found, R item.normalize found ↔ R' item found) :
    (do return SortedMap.ofList (← (SortedMap.ofList (Value.normalizeMembers members)).entries.mapM
      f)) = Except.ok result ↔
      ∀ key, Option.Rel R' ((Value.object members).member? key) (result.get? key) := by
  have hrelated : ∀ key, Option.Rel R
      ((SortedMap.ofList (Value.normalizeMembers members)).get? key) (result.get? key) ↔
      Option.Rel R' ((Value.object members).member? key) (result.get? key) := by
    intro key
    rw [Value.get?_ofList_normalizeMembers]
    cases (Value.object members).member? key <;> cases result.get? key <;> simp [hnormalize]
  rw [← forall_congr' hrelated, ← mapM_entries_iff hread, Reporting.bind_eq_ok_iff]
  constructor
  · rintro ⟨entries, hentries, h⟩
    obtain ⟨read, rfl, -⟩ := exists_of_mapM_entries hread hentries
    cases h
    rwa [SortedMap.ofList_entries]
  · intro h
    exact ⟨result.entries, h, congrArg Except.ok (SortedMap.ofList_entries result)⟩

/-! ## Reading further tests and resources -/

section Tables

variable {value : Value}

theorem readAdditional_normalize
    {extras : SortedMap String} :
    readAdditional value.normalize = .ok extras ↔ AreExtras value extras := by
  cases value with
  | object members =>
      have hrelated : ∀ name, Option.Rel (fun item code => item = Value.string code)
          ((Value.object members).member? name) (extras.get? name) ↔
          (Value.object members).member? name = (extras.get? name).map .string := by
        intro name
        cases (Value.object members).member? name <;> cases extras.get? name <;> simp
      refine (readMembers_iff (R := fun item code => item = .string code) ?_
        fun _ _ => Value.normalize_eq_string_iff).trans
        ((forall_congr' hrelated).trans (and_iff_right ⟨members, rfl⟩).symm)
      rintro name item ⟨name', code⟩
      cases item <;> simp [eq_comm]
  | null | bool _ | integer _ | decimal _ | string _ | array _ =>
      simp [readAdditional, Value.normalize, AreExtras]

theorem readString_eq_ok_iff
    {text : String} :
    readString value = .ok text ↔ value = .string text := by
  cases value <;> simp [readString, wrongType]

theorem readStrings_eq_ok_iff
    {places : List String} :
    readStrings value = .ok places ↔ value = .ofStrings places := by
  cases value with
  | array items =>
      rw [readStrings, Reporting.mapM_eq_ok_iff, Value.ofStrings, Value.ofList,
        Value.array.injEq, ← List.forall₂_eq_eq_eq, List.forall₂_map_right_iff]
      simp only [readString_eq_ok_iff]
  | null | bool _ | integer _ | decimal _ | string _ | object _ =>
      simp [readStrings, wrongType, Value.ofStrings, Value.ofList]

theorem kind_ofValue_eq_ok_iff
    {kind : ResourceKind} :
    ResourceKind.ofValue value = .ok kind ↔
      ∃ name, value = .string name ∧ ResourceKind.ofTag? name = some kind := by
  cases value with
  | string name =>
      rw [ResourceKind.ofValue]
      split <;> simp_all
  | null | bool _ | integer _ | decimal _ | array _ | object _ =>
      simp [ResourceKind.ofValue, wrongType]

/-- The name of a kind. -/
theorem name_of_ofTag?
    {name : String} {kind : ResourceKind}
    (h : ResourceKind.ofTag? name = some kind) :
    name = match kind with
      | .medium kind => kind.tag
      | .object => "instance" := by
  unfold ResourceKind.ofTag? at h
  split at h
  all_goals
    cases h <;> rfl

/-- A resource is read from its parts. -/
theorem read_parts_iff
    {tag source : Value} {resource : Resource} :
    (ResourceKind.ofValue tag >>= fun kind => kind.read source) = .ok resource ↔
      Resource.Parts tag source resource := by
  rw [Reporting.bind_eq_ok_iff]
  constructor
  · rintro ⟨kind, hkind, hread⟩
    obtain ⟨name, rfl, htag⟩ := kind_ofValue_eq_ok_iff.1 hkind
    cases kind with
    | medium kind =>
        obtain ⟨places, hplaces, hresource⟩ := Reporting.bind_eq_ok_iff.1 hread
        cases hresource
        rw [readStrings_eq_ok_iff.1 hplaces, name_of_ofTag? htag]
        exact .medium kind places
    | object =>
        obtain ⟨script, hscript, hresource⟩ := Reporting.bind_eq_ok_iff.1 hread
        cases hresource
        rw [readString_eq_ok_iff.1 hscript, name_of_ofTag? htag]
        exact .object script
  · rintro (⟨kind, places⟩ | ⟨script⟩)
    · refine ⟨.medium kind, kind_ofValue_eq_ok_iff.2 ⟨kind.tag, rfl, ?_⟩, ?_⟩
      · cases kind <;> rfl
      · rw [ResourceKind.read, readStrings_eq_ok_iff.2 rfl]
        rfl
    · exact ⟨.object, rfl, rfl⟩

theorem isResource_iff
    {resource : Resource} :
    IsResource value resource ↔ ∃ tag source, Resource.Parts tag source resource ∧
      (value = .array [tag, source] ∨
        value.member? "type" = some tag ∧ value.member? "src" = some source) := by
  constructor
  · rintro (⟨htag, hsource, h⟩ | ⟨h⟩)
    · exact ⟨_, _, h, Or.inr ⟨htag, hsource⟩⟩
    · exact ⟨_, _, h, Or.inl rfl⟩
  · rintro ⟨tag, source, h, rfl | ⟨htag, hsource⟩⟩
    · exact .list h
    · obtain ⟨members, rfl, -⟩ := Value.exists_mem_of_member? htag
      exact .record htag hsource h

theorem resource_ofValue_eq_ok_iff
    {resource : Resource} :
    Resource.ofValue value = .ok resource ↔ IsResource value resource := by
  rw [isResource_iff]
  cases value with
  | array items =>
      rw [Resource.ofValue]
      match items with
      | [] | [_] | _ :: _ :: _ :: _ =>
          simp [Resource.ofItems, Reporting.bind_eq_ok_iff, Value.member?]
      | [tag, source] =>
          have hread : _ ↔ Resource.Parts tag source resource := read_parts_iff
          simpa [Resource.ofItems, Reporting.bind_eq_ok_iff, Value.member?] using hread
  | object members =>
      rw [Resource.ofValue, Resource.ofMembers]
      cases (Value.object members).member? "type" with
      | none =>
          simp
      | some tag =>
          cases (Value.object members).member? "src" with
          | none =>
              simp [Reporting.bind_eq_ok_iff]
          | some source =>
              simpa using read_parts_iff
  | null | bool _ | integer _ | decimal _ | string _ =>
      simp [Resource.ofValue, wrongType, Value.member?]

theorem parts_normalize
    {tag source : Value} {resource : Resource} :
    Resource.Parts tag.normalize source.normalize resource ↔
      Resource.Parts tag source resource := by
  have hparts : ∀ {tag source}, Resource.Parts tag source resource ↔
      (∃ kind places, tag = .string kind.tag ∧ source = .ofStrings places ∧
        resource = .medium kind places) ∨
      ∃ script, tag = .string "instance" ∧ source = .string script ∧
        resource = .object script := by
    intro tag source
    constructor
    · rintro (⟨kind, places⟩ | ⟨script⟩)
      · exact Or.inl ⟨kind, places, rfl, rfl, rfl⟩
      · exact Or.inr ⟨script, rfl, rfl, rfl⟩
    · rintro (⟨kind, places, rfl, rfl, rfl⟩ | ⟨script, rfl, rfl, rfl⟩)
      · exact .medium kind places
      · exact .object script
  simp only [hparts, Value.normalize_eq_string_iff, Value.normalize_eq_ofStrings_iff]

theorem resource_ofValue_normalize
    {resource : Resource} :
    Resource.ofValue value.normalize = .ok resource ↔ IsResource value resource := by
  rw [resource_ofValue_eq_ok_iff, isResource_iff, isResource_iff]
  simp only [Value.member?_normalize, Option.map_eq_some_iff, Value.normalize_eq_pair_iff]
  constructor
  · rintro ⟨_, _, h, ⟨tag, source, rfl, rfl, rfl⟩ | ⟨⟨tag, htag, rfl⟩, source, hsource, rfl⟩⟩
    · exact ⟨tag, source, parts_normalize.1 h, Or.inl rfl⟩
    · exact ⟨tag, source, parts_normalize.1 h, Or.inr ⟨htag, hsource⟩⟩
  · rintro ⟨tag, source, h, rfl | ⟨htag, hsource⟩⟩
    · exact ⟨_, _, parts_normalize.2 h, Or.inl ⟨tag, source, rfl, rfl, rfl⟩⟩
    · exact ⟨_, _, parts_normalize.2 h, Or.inr ⟨⟨tag, htag, rfl⟩, source, hsource, rfl⟩⟩

theorem resources_ofValue_normalize
    {table : Resources} :
    Resources.ofValue value.normalize = .ok table ↔
      (∃ members, value = .object members) ∧
        ∀ name, Option.Rel IsResource (value.member? name) (table.get? name) := by
  cases value with
  | object members =>
      exact (readMembers_iff (R := fun item resource => Resource.ofValue item = .ok resource)
        (fun _ _ _ => keyed_eq_ok_iff) fun _ _ => resource_ofValue_normalize).trans
        (and_iff_right ⟨members, rfl⟩).symm
  | null | bool _ | integer _ | decimal _ | string _ | array _ =>
      simp [Resources.ofValue, wrongType, Value.normalize]

end Tables

end Catalog
end FeatureProbes
