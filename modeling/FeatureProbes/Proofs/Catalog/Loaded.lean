import FeatureProbes.Proofs.Catalog.Format

/-!
# Catalogs that are read

A document is read as a catalog just if it has the format of one, and the catalog has the nodes and
the resources of the document.

A mapping is read member by member, and each member settles one thing about the node that it belongs
to: a field, or the node at one name below.  So what a node has is known from the member that
settles it, whatever the other members are.
-/

namespace FeatureProbes
namespace Catalog

open Json (Value)

/-! ## Reading nodes -/

namespace Node

/-- A node gains one more member. -/
inductive Gains (node : Node) : String → Value → Node → Prop where
  | base {value : Value} {code : Option String} (h : IsCode value code) :
      Gains node "__base" value { node with base := code }
  | test {value : Value} {code : Option String} (h : IsCode value code) :
      Gains node "__test" value { node with test := code, useDefault := code.isNone }
  | resources {value : Value} {names : List String} (h : AreNames value names) :
      Gains node "__resources" value { node with resources := names }
  | additional {value : Value} {extras : SortedMap String} (h : AreExtras value extras) :
      Gains node "__additional" value { node with additional := extras }
  | child {key : String} {value : Value} {child : Node}
      (hkey : ¬IsReserved key)
      (h : Node.ofValue value.normalize = .ok child) :
      Gains node key value (node.withChild key child)

variable {node node' result : Node} {key : String} {value : Value}
  {entries : List (String × Value)}

theorem withOwn_normalize
    (hkey : IsReserved key) :
    node.withOwn key value.normalize = .ok node' ↔ Gains node key value node' := by
  constructor
  · intro h
    unfold withOwn at h
    split at h
    · obtain ⟨code, hcode, h⟩ := Reporting.bind_eq_ok_iff.1 h
      cases h
      subst key
      exact .base (readCode_normalize.1 hcode)
    · split at h
      · obtain ⟨code, hcode, h⟩ := Reporting.bind_eq_ok_iff.1 h
        cases h
        subst key
        exact .test (readCode_normalize.1 hcode)
      · split at h
        · obtain ⟨names, hnames, h⟩ := Reporting.bind_eq_ok_iff.1 h
          cases h
          subst key
          exact .resources (readNames_normalize.1 hnames)
        · split at h
          · obtain ⟨extras, hextras, h⟩ := Reporting.bind_eq_ok_iff.1 h
            cases h
            subst key
            exact .additional (readAdditional_normalize.1 hextras)
          · cases h
  · rintro (h | h | h | h | ⟨hnot, -⟩)
    · simp [withOwn, readCode_normalize.2 h]
    · simp [withOwn, readCode_normalize.2 h]
    · simp [withOwn, readNames_normalize.2 h]
    · simp [withOwn, readAdditional_normalize.2 h]
    · exact absurd hkey hnot

/-- A member of a node's own leaves the nodes below it. -/
theorem Gains.children_of_isReserved
    (h : Gains node key value node')
    (hkey : IsReserved key) :
    node'.children = node.children := by
  cases h with
  | base _ | test _ | resources _ | additional _ =>
      rfl
  | child hnot _ =>
      exact absurd hkey hnot

/-- A member with a key that is not the node's own is a node below. -/
theorem Gains.child_of_not_isReserved
    (h : Gains node key value node')
    (hkey : ¬IsReserved key) :
    ∃ child, Node.ofValue value.normalize = .ok child ∧ node' = node.withChild key child := by
  cases h with
  | base _ | test _ | resources _ | additional _ =>
      exact absurd (isOwnKey_iff.1 (by decide)) hkey
  | child _ h =>
      exact ⟨_, h, rfl⟩

/-- Members are gained one after the other. -/
theorem addMembers_cons_iff :
    node.addMembers ((key, value.normalize) :: entries) = .ok result ↔
      ∃ node', Gains node key value node' ∧ node'.addMembers entries = .ok result := by
  rw [addMembers]
  split
  · rename_i hkey
    rw [Reporting.bind_eq_ok_iff]
    simp only [withOwn_normalize (isOwnKey_iff.1 hkey)]
  · rename_i hkey
    rw [isOwnKey_iff] at hkey
    constructor
    · intro h
      split at h
      · rename_i child hchild
        exact ⟨_, .child hkey hchild, h⟩
      · cases h
    · rintro ⟨node', hgains, h⟩
      obtain ⟨child, hchild, rfl⟩ := hgains.child_of_not_isReserved hkey
      rw [hchild]
      exact h

/-- Whether a member can be gained depends only on the member. -/
theorem exists_gains_iff :
    (∃ node', Gains node key value node') ↔
      IsOwnMember key value ∨
        ¬IsReserved key ∧ ∃ child, Node.ofValue value.normalize = .ok child := by
  constructor
  · rintro ⟨_, h | h | h | h | ⟨hkey, h⟩⟩
    · exact Or.inl (.base h)
    · exact Or.inl (.test h)
    · exact Or.inl (.resources h)
    · exact Or.inl (.additional h)
    · exact Or.inr ⟨hkey, _, h⟩
  · rintro ((h | h | h | h) | ⟨hkey, child, h⟩)
    · exact ⟨_, .base h⟩
    · exact ⟨_, .test h⟩
    · exact ⟨_, .resources h⟩
    · exact ⟨_, .additional h⟩
    · exact ⟨_, .child hkey h⟩

/-- Members are gained where each of them can be. -/
theorem exists_addMembers_iff :
    (∃ result, node.addMembers (Value.normalizeMembers entries) = .ok result) ↔
      ∀ entry ∈ entries, ∃ node', Gains .empty entry.1 entry.2 node' := by
  induction entries generalizing node with
  | nil =>
      exact iff_of_true ⟨node, rfl⟩ nofun
  | cons entry entries ih =>
      obtain ⟨key, value⟩ := entry
      -- It is all the same what the node has gained before.
      have hany : (∃ node', Gains .empty key value node') ↔ ∃ node', Gains node key value node' :=
        exists_gains_iff.trans exists_gains_iff.symm
      rw [List.forall_mem_cons, hany]
      constructor
      · rintro ⟨result, h⟩
        obtain ⟨node', hgains, h⟩ := addMembers_cons_iff.1 h
        exact ⟨⟨node', hgains⟩, ih.1 ⟨result, h⟩⟩
      · rintro ⟨⟨node', hgains⟩, hmore⟩
        obtain ⟨result, h⟩ := ih.2 hmore
        exact ⟨result, addMembers_cons_iff.2 ⟨node', hgains, h⟩⟩

theorem ofValue_object
    (members : List (String × Value)) :
    Node.ofValue (Value.object members).normalize =
      Node.empty.addMembers (Value.normalizeMembers (SortedMap.ofList members).entries) := by
  rw [Value.normalize_object, Node.ofValue]

theorem mem_kept_iff
    {members : List (String × Value)} :
    (key, value) ∈ (SortedMap.ofList members).entries ↔
      (Value.object members).member? key = some value := by
  rw [← SortedMap.get?_eq_some_iff, Value.member?_object]

/-- Nodes are read from the values that are nodes. -/
theorem exists_ofValue_iff :
    (∃ node, Node.ofValue value.normalize = .ok node) ↔ IsNode value := by
  have hfits : ∀ {members : List (String × Value)},
      (∃ node, Node.ofValue (Value.object members).normalize = .ok node) ↔
        ∀ key item, (Value.object members).member? key = some item →
          IsOwnMember key item ∨
            ¬IsReserved key ∧ ∃ child, Node.ofValue item.normalize = .ok child := by
    intro members
    rw [ofValue_object, exists_addMembers_iff, Prod.forall]
    simp only [mem_kept_iff, exists_gains_iff]
  -- One way by the parts of the value, the other way by what makes it a node.
  constructor
  · induction value using Value.induction_of_parts with
    | array items _ =>
        rintro ⟨node, ⟨⟩⟩
    | object members ih =>
        intro h
        have hmembers := hfits.1 h
        refine .mapping (fun key item hitem hkey => ?_) fun key item hitem hkey => ?_
        · exact (hmembers key item hitem).resolve_right fun h => h.1 hkey
        · obtain ⟨_, ⟨⟩, hmem⟩ := Value.exists_mem_of_member? hitem
          have hchild := (hmembers key item hitem).resolve_left fun hown => hkey hown.isReserved
          exact ih _ hmem hchild.2
    | plain value harray hobject =>
        rintro ⟨node, h⟩
        cases value with
        | string code =>
            exact .test code
        | bool flag =>
            cases flag with
            | false =>
                exact .kept
            | true =>
                cases h
        | array items =>
            exact absurd rfl (harray items)
        | object members =>
            exact absurd rfl (hobject members)
        | null | integer _ | decimal _ =>
            cases h
  · intro h
    induction h with
    | test code =>
        exact ⟨_, rfl⟩
    | kept =>
        exact ⟨_, rfl⟩
    | mapping own _ ih =>
        refine hfits.2 fun key item hitem => ?_
        by_cases hkey : IsReserved key
        · exact Or.inl (own key item hitem hkey)
        · exact Or.inr ⟨hkey, ih key item hitem hkey⟩

/-! ## What members settle -/

section Settled

variable {β : Type} {view : Node → β}

/-- Nothing but the member with some key changes what is looked at. -/
def Settles (key : String) (view : Node → β) : Prop :=
  ∀ {node node' : Node} {other : String} {value : Value}, Gains node other value node' →
    other ≠ key → view node' = view node

theorem Settles.of_not_mem
    (hview : Settles key view)
    (h : node.addMembers (Value.normalizeMembers entries) = .ok result)
    (hkey : key ∉ entries.map Prod.fst) :
    view result = view node := by
  induction entries generalizing node with
  | nil =>
      cases h
      rfl
  | cons entry entries ih =>
      rw [List.map_cons, List.mem_cons, not_or] at hkey
      obtain ⟨node', hgains, h⟩ := addMembers_cons_iff.1 h
      exact (ih h hkey.2).trans (hview hgains (Ne.symm hkey.1))

theorem Settles.of_mem
    (hview : Settles key view)
    (h : node.addMembers (Value.normalizeMembers entries) = .ok result)
    (hdistinct : (entries.map Prod.fst).Nodup)
    (hmem : (key, value) ∈ entries) :
    ∃ before after, Gains before key value after ∧ view before = view node ∧
      view result = view after := by
  induction entries generalizing node with
  | nil =>
      cases hmem
  | cons entry entries ih =>
      rw [List.map_cons, List.nodup_cons] at hdistinct
      obtain ⟨node', hgains, hrest⟩ := addMembers_cons_iff.1 h
      rcases List.mem_cons.1 hmem with rfl | hmem
      · exact ⟨node, node', hgains, rfl, hview.of_not_mem hrest hdistinct.1⟩
      · have hother : entry.1 ≠ key := by
          rintro rfl
          exact hdistinct.1 (List.mem_map.2 ⟨_, hmem, rfl⟩)
        obtain ⟨before, after, hgains', hbefore, hafter⟩ := ih hrest hdistinct.2 hmem
        exact ⟨before, after, hgains', hbefore.trans (hview hgains hother), hafter⟩

/-- What a node has where the document has no member to settle it, and where it has one. -/
theorem Settles.of_ofValue
    {members : List (String × Value)}
    (hview : Settles key view)
    (h : Node.ofValue (Value.object members).normalize = .ok node) :
    ((Value.object members).member? key = none → view node = view .empty) ∧
      ∀ item, (Value.object members).member? key = some item →
        ∃ before after, Gains before key item after ∧ view before = view .empty ∧
          view node = view after := by
  rw [ofValue_object] at h
  constructor
  · intro hnone
    refine hview.of_not_mem h fun hmem => ?_
    rw [← SortedMap.keys, SortedMap.mem_keys_iff, ← Value.member?_object, hnone] at hmem
    cases hmem
  · intro item hitem
    exact hview.of_mem h ((SortedMap.keys_ascending _).imp String.ne_of_lt) (mem_kept_iff.2 hitem)

/-- Each field of a node is settled by one key. -/
theorem settles_own :
    Settles "__base" Node.base ∧ Settles "__test" (fun node => (node.test, node.useDefault)) ∧
      Settles "__resources" Node.resources ∧ Settles "__additional" Node.additional := by
  refine ⟨?_, ?_, ?_, ?_⟩
  all_goals
    intro node node' other value h hother
    cases h with
    | child _ _ =>
        rfl
    | base _ | test _ | resources _ | additional _ =>
        first
        | rfl
        | exact absurd rfl hother

theorem child?_withChild
    (child : Node)
    (other : String) :
    (node.withChild key child).child? other =
      (node.child? other).or (if key = other then some child else none) := by
  rw [withChild, Node.child?, Node.child?, List.find?_append, Option.map_or]
  split <;> simp_all

theorem settles_child
    (key : String) :
    Settles key (fun node => node.child? key) := by
  intro node node' other value h hother
  cases h with
  | base _ | test _ | resources _ | additional _ =>
      rfl
  | child _ _ =>
      simp [child?_withChild, hother]

/-- What a field is once its key is settled. -/
theorem Gains.own
    (h : Gains node key value node') :
    (key = "__base" → IsCode value node'.base) ∧
      (key = "__test" → ∃ code, IsCode value code ∧
        (node'.test, node'.useDefault) = (code, code.isNone)) ∧
      (key = "__resources" → AreNames value node'.resources) ∧
      (key = "__additional" → AreExtras value node'.additional) := by
  cases h with
  | child hkey _ =>
      refine ⟨?_, ?_, ?_, ?_⟩
      all_goals
        rintro rfl
        exact absurd (isOwnKey_iff.1 (by decide)) hkey
  | base h | resources h | additional h =>
      simp [h]
  | test h =>
      simp [h]

end Settled

/-- The nodes below a node are those at its members that are not its own. -/
theorem child?_eq_some_iff
    {child : Node}
    (h : Node.ofValue value.normalize = .ok node) :
    node.child? key = some child ↔ ¬IsReserved key ∧ ∃ item, value.member? key = some item ∧
      Node.ofValue item.normalize = .ok child := by
  have hempty : Node.empty.child? key = none := rfl
  cases value with
  | object members =>
      obtain ⟨hnone, hsome⟩ := Settles.of_ofValue (settles_child key) h
      cases hitem : (Value.object members).member? key with
      | none =>
          rw [hnone hitem]
          simp [hempty]
      | some item =>
          obtain ⟨before, after, hgains, hbefore, hafter⟩ := hsome item hitem
          rw [hafter]
          by_cases hkey : IsReserved key
          · have hnot : after.child? key = none := by
              rw [Node.child?, hgains.children_of_isReserved hkey]
              exact hbefore
            simp [hnot, hkey]
          · obtain ⟨child', hchild, rfl⟩ := hgains.child_of_not_isReserved hkey
            have hnew : (before.withChild key child').child? key = some child' := by
              rw [child?_withChild, if_pos rfl]
              exact congrArg (fun found => found.or (some child')) hbefore
            simp [hnew, hkey, hchild]
  | string code =>
      cases h
      simp [Value.member?, Node.child?, Node.empty]
  | bool flag =>
      cases flag with
      | false =>
          cases h
          simp [Value.member?, Node.child?, Node.empty]
      | true =>
          cases h
  | null | integer _ | decimal _ | array _ =>
      cases h

/-- A node has what the value that it is read from says. -/
theorem describes_of_ofValue
    (h : Node.ofValue value.normalize = .ok node) :
    Describes value node := by
  cases value with
  | object members =>
      obtain ⟨hbase, htest, hresources, hadditional⟩ := settles_own
      -- One key settles the test and the mark that the default is kept.
      have hmark : ((Value.object members).member? "__test" = none ∧
            node.test = none ∧ node.useDefault = false) ∨
          ∃ item code, (Value.object members).member? "__test" = some item ∧
            IsCode item code ∧ node.test = code ∧ node.useDefault = code.isNone := by
        obtain ⟨hnone, hsome⟩ := htest.of_ofValue h
        cases hitem : (Value.object members).member? "__test" with
        | none =>
            exact Or.inl ⟨rfl, Prod.mk.inj (hnone hitem)⟩
        | some item =>
            obtain ⟨_, after, hgains, -, hafter⟩ := hsome item hitem
            obtain ⟨code, hcode, hfields⟩ := hgains.own.2.1 rfl
            exact Or.inr ⟨item, code, rfl, hcode, Prod.mk.inj (hafter.trans hfields)⟩
      constructor
      case base =>
        intro code
        obtain ⟨hnone, hsome⟩ := hbase.of_ofValue h
        cases hitem : (Value.object members).member? "__base" with
        | none =>
            simp [hnone hitem, Node.empty]
        | some item =>
            obtain ⟨_, after, hgains, -, hafter⟩ := hsome item hitem
            rw [hafter, (hgains.own.1 rfl).eq_some_iff, Option.some.injEq]
      case test =>
        intro text
        rcases hmark with ⟨hitem, htest, -⟩ | ⟨item, code, hitem, hcode, htest, -⟩
        · simp [hitem, htest]
        · simp [hitem, htest, hcode.eq_some_iff]
      case useDefault =>
        rcases hmark with ⟨hitem, -, hmark⟩ | ⟨item, code, hitem, hcode, -, hmark⟩
        · simp [hitem, hmark]
        · simp [hitem, hmark, ← hcode.isNone_iff]
      case resources =>
        obtain ⟨hnone, hsome⟩ := hresources.of_ofValue h
        cases hitem : (Value.object members).member? "__resources" with
        | none =>
            exact Or.inl ⟨rfl, hnone hitem⟩
        | some item =>
            obtain ⟨_, after, hgains, -, hafter⟩ := hsome item hitem
            exact Or.inr ⟨item, rfl, hafter ▸ hgains.own.2.2.1 rfl⟩
      case additional =>
        intro name code
        obtain ⟨hnone, hsome⟩ := hadditional.of_ofValue h
        cases hitem : (Value.object members).member? "__additional" with
        | none =>
            simp [hnone hitem, Node.empty]
        | some item =>
            obtain ⟨_, after, hgains, -, hafter⟩ := hsome item hitem
            rw [hafter]
            simp [(hgains.own.2.2.2 rfl).2]
  | string code =>
      cases h
      constructor <;> simp [Value.member?, Node.empty]
  | bool flag =>
      cases flag with
      | false =>
          cases h
          constructor <;> simp [Value.member?, Node.empty]
      | true =>
          cases h
  | null | integer _ | decimal _ | array _ =>
      cases h

/-- Keys lead to the nodes that are read from the values they lead to. -/
theorem descendant?_eq_some_iff
    {keys : List String} {found : Node}
    (h : Node.ofValue value.normalize = .ok node) :
    Node.descendant? keys node = some found ↔
      ∃ item, Leads value keys item ∧ Node.ofValue item.normalize = .ok found := by
  induction keys generalizing value node with
  | nil =>
      constructor
      · rintro ⟨⟩
        exact ⟨value, .here value, h⟩
      · rintro ⟨_, ⟨⟩, hfound⟩
        rw [h] at hfound
        cases hfound
        rfl
  | cons key keys ih =>
      rw [Node.descendant?, Option.bind_eq_some_iff]
      constructor
      · rintro ⟨child, hchild, hfound⟩
        obtain ⟨hkey, item, hitem, hread⟩ := (child?_eq_some_iff h).1 hchild
        obtain ⟨last, hleads, hlast⟩ := (ih hread).1 hfound
        exact ⟨last, .next hkey hitem hleads, hlast⟩
      · rintro ⟨last, hleads, hlast⟩
        cases hleads with
        | next hkey hitem hleads =>
            have hnode := (exists_ofValue_iff.1 ⟨node, h⟩).of_leads
              (.next hkey hitem (.here _))
            obtain ⟨child, hchild⟩ := exists_ofValue_iff.2 hnode
            exact ⟨child, (child?_eq_some_iff h).2 ⟨hkey, _, hitem, hchild⟩,
              (ih hchild).2 ⟨last, hleads, hlast⟩⟩

end Node

/-! ## Reading documents -/

theorem areReadable_iff
    {items : List Value} :
    areReadable items ↔ ∀ item ∈ items, isReadable item := by
  induction items with
  | nil =>
      simp [areReadable]
  | cons item items ih =>
      simp [areReadable, ih]

theorem areReadableMembers_iff
    {members : List (String × Value)} :
    areReadableMembers members ↔ ∀ member ∈ members, isReadable member.2 := by
  induction members with
  | nil =>
      simp [areReadableMembers]
  | cons member members ih =>
      simp [areReadableMembers, ih]

section Documents

variable {value : Value}

theorem isReadable_normalize_object
    {members : List (String × Value)}
    (h : ∀ key item, (Value.object members).member? key = some item → isReadable item.normalize) :
    isReadable (Value.object members).normalize := by
  rw [Value.normalize_object, isReadable, areReadableMembers_iff, Value.normalizeMembers_eq_map,
    List.forall_mem_map]
  intro member hmember
  exact h member.1 member.2 (Node.mem_kept_iff.1 hmember)

theorem IsOwnMember.isReadable
    {key : String}
    (h : IsOwnMember key value) :
    isReadable value.normalize := by
  cases h with
  | base h | test h =>
      cases h <;> rfl
  | resources h =>
      cases h with
      | one _ =>
          rfl
      | list names =>
          rw [Value.normalize_eq_ofStrings_iff.2 rfl, Value.ofStrings, Value.ofList,
            Catalog.isReadable, areReadable_iff, List.forall_mem_map]
          exact fun _ _ => rfl
  | additional h =>
      obtain ⟨⟨members, rfl⟩, hstrings⟩ := h
      refine isReadable_normalize_object fun name item hitem => ?_
      obtain ⟨code, -, rfl⟩ := Option.map_eq_some_iff.1 ((hstrings name).symm.trans hitem)
      rfl

theorem IsNode.isReadable
    (h : IsNode value) :
    isReadable value.normalize := by
  induction h with
  | test _ | kept =>
      rfl
  | mapping own _ ih =>
      refine isReadable_normalize_object fun key item hitem => ?_
      by_cases hkey : IsReserved key
      · exact (own key item hitem hkey).isReadable
      · exact ih key item hitem hkey

/-- Nothing that is a node is unreadable. -/
theorem readCategory_normalize
    {node : Node} :
    readCategory value.normalize = .ok node ↔ Node.ofValue value.normalize = .ok node := by
  constructor
  · intro h
    unfold readCategory at h
    split at h
    · cases hnode : Node.ofValue value.normalize with
      | error problem =>
          rw [hnode] at h
          cases h
      | ok found =>
          rw [hnode] at h
          cases h
          rfl
    · cases h
  · intro h
    rw [readCategory, if_pos (Node.exists_ofValue_iff.1 ⟨node, h⟩).isReadable, h]

/-- A table is read from the values that are tables. -/
theorem exists_resources_iff :
    (∃ table, Resources.ofValue value.normalize = .ok table) ↔ IsTable value := by
  simp only [resources_ofValue_normalize, exists_and_left]
  constructor
  · rintro ⟨⟨members, rfl⟩, table, h⟩
    simp only [Value.member?_object] at h
    refine ⟨⟨members, rfl⟩, fun name item hitem => ?_⟩
    rw [Value.member?_object] at hitem
    exact exists_related_iff.1 ⟨table, h⟩ name item hitem
  · rintro ⟨⟨members, rfl⟩, h⟩
    simp only [Value.member?_object] at h ⊢
    exact ⟨⟨members, rfl⟩, exists_related_iff.2 h⟩

theorem exists_without
    (map : SortedMap Value)
    (key : String) :
    ∃ rest : SortedMap Value, rest.entries = map.entries.filter (fun member => member.1 ≠ key) ∧
      ∀ other, rest.get? other = if other = key then none else map.get? other := by
  refine ⟨⟨_, map.ascending.filter _⟩, rfl, fun other => Option.ext fun value => ?_⟩
  rw [SortedMap.get?_eq_some_iff, List.mem_filter, ← SortedMap.get?_eq_some_iff]
  by_cases hkey : other = key <;> simp [hkey]

/-- The parts of a document and what is read of them. -/
theorem ofMembers_entries_iff
    {map : SortedMap Value} {catalog : Catalog} :
    ofMembers map.entries = .ok catalog ↔
      (match map.get? "__resources" with
        | some value => Resources.ofValue value
        | none => .ok .empty) = .ok catalog.resources ∧
      ∃ children : SortedMap Node,
        catalog.root = { Node.empty with children := children.entries } ∧
          ∀ key, Option.Rel (fun value node => readCategory value = .ok node)
            (if key = "__resources" then none else map.get? key) (children.get? key) := by
  obtain ⟨categories, hcategories, hget⟩ := exists_without map "__resources"
  simp only [← hget]
  have hboth : ofMembers map.entries = .ok catalog ↔ ∃ table,
      (match map.get? "__resources" with
        | some value => Resources.ofValue value
        | none => .ok .empty) = .ok table ∧
      ∃ entries, (categories.entries.mapM fun entry => do
          return (entry.1, ← readCategory entry.2)) = .ok entries ∧
        catalog = ⟨{ Node.empty with children := entries }, table⟩ := by
    rw [hcategories, ofMembers, SortedMap.get?]
    dsimp only
    cases map.entries.find? fun member => member.1 = "__resources"
    all_goals
      refine Reporting.bind_eq_ok_iff.trans (exists_congr fun table => and_congr_right' ?_)
      refine Reporting.bind_eq_ok_iff.trans (exists_congr fun entries => and_congr_right' ?_)
      exact ⟨fun h => by cases h; rfl, fun h => h ▸ rfl⟩
  rw [hboth]
  constructor
  · rintro ⟨table, htable, entries, hentries, rfl⟩
    obtain ⟨children, rfl, hchildren⟩ := exists_of_mapM_entries
      (R := fun value node => readCategory value = .ok node) (fun _ _ _ => keyed_eq_ok_iff)
      hentries
    exact ⟨htable, children, rfl, hchildren⟩
  · rintro ⟨htable, children, hroot, hchildren⟩
    refine ⟨catalog.resources, htable, children.entries,
      (mapM_entries_iff fun _ _ _ => keyed_eq_ok_iff).2 hchildren, ?_⟩
    rw [← hroot]

end Documents

/-! ## What a document is read as -/

/-- The value of a category of a document. -/
def category? (document : Value) (key : String) : Option Value :=
  if key = "__resources" then none else document.member? key

theorem exists_get?_eq_category?
    (document : Value) :
    ∃ categories : SortedMap Value, ∀ key, categories.get? key = category? document key := by
  cases document with
  | object members =>
      obtain ⟨categories, -, hget⟩ := exists_without (.ofList members) "__resources"
      refine ⟨categories, fun key => ?_⟩
      rw [hget, category?, Value.member?_object]
  | null | bool _ | integer _ | decimal _ | string _ | array _ =>
      exact ⟨.empty, fun key => by simp [category?, Value.member?]⟩

section Loading

variable {document : Value} {catalog : Catalog}

theorem ofDocument_eq_ok_iff :
    ofDocument document = .ok catalog ↔
      (∃ members, document = .object members) ∧
      (match document.member? "__resources" with
        | some value => Resources.ofValue value.normalize
        | none => .ok .empty) = .ok catalog.resources ∧
      ∃ children : SortedMap Node,
        catalog.root = { Node.empty with children := children.entries } ∧
          ∀ key, Option.Rel (fun value node => Node.ofValue value.normalize = .ok node)
            (category? document key) (children.get? key) := by
  cases document with
  | object members =>
      have hread : ofDocument (.object members) = .ok catalog ↔
          ofMembers ((SortedMap.ofList members).mapValues Value.normalize).entries =
            .ok catalog := by
        rw [ofDocument, Value.normalize_object, Value.normalizeMembers_eq_map]
        dsimp only [SortedMap.mapValues]
        split <;> simp_all
      have hcategory : ∀ key (node : Option Node), Option.Rel
          (fun value node => readCategory value = .ok node)
          (if key = "__resources" then none
            else ((SortedMap.ofList members).mapValues Value.normalize).get? key) node ↔
          Option.Rel (fun value node => Node.ofValue value.normalize = .ok node)
            (category? (.object members) key) node := by
        intro key node
        rw [category?, SortedMap.get?_mapValues, ← Value.member?_object]
        split
        · cases node <;> simp
        · cases (Value.object members).member? key <;> cases node <;>
            simp [readCategory_normalize]
      rw [hread, ofMembers_entries_iff]
      simp only [hcategory]
      rw [SortedMap.get?_mapValues, ← Value.member?_object]
      refine Iff.trans ?_ (and_iff_right ⟨members, rfl⟩).symm
      cases (Value.object members).member? "__resources" <;> rfl
  | null | bool _ | integer _ | decimal _ | string _ | array _ =>
      simp [ofDocument, Value.normalize, wrongType]

/-- A document is read if it is a catalog. -/
theorem exists_ofDocument_iff :
    (∃ catalog, ofDocument document = .ok catalog) ↔ IsCatalog document := by
  have hcategories : (∃ children : SortedMap Node, ∀ key,
      Option.Rel (fun value node => Node.ofValue value.normalize = .ok node)
        (category? document key) (children.get? key)) ↔
      ∀ key value, document.member? key = some value → key ≠ "__resources" → IsNode value := by
    obtain ⟨categories, hget⟩ := exists_get?_eq_category? document
    simp only [← hget, exists_related_iff, Node.exists_ofValue_iff]
    refine forall₂_congr fun key value => ?_
    by_cases hkey : key = "__resources" <;> simp [hget, category?, hkey]
  have htable : (∃ table, (match document.member? "__resources" with
        | some value => Resources.ofValue value.normalize
        | none => .ok .empty) = Except.ok table) ↔
      ∀ value, document.member? "__resources" = some value → IsTable value := by
    cases document.member? "__resources" with
    | none =>
        simp
    | some value =>
        simp [exists_resources_iff]
  constructor
  · rintro ⟨catalog, h⟩
    obtain ⟨hobject, hresources, children, -, hchildren⟩ := ofDocument_eq_ok_iff.1 h
    exact ⟨hobject, htable.1 ⟨_, hresources⟩, hcategories.1 ⟨children, hchildren⟩⟩
  · rintro ⟨hobject, hresources, hnodes⟩
    obtain ⟨table, htable⟩ := htable.2 hresources
    obtain ⟨children, hchildren⟩ := hcategories.2 hnodes
    exact ⟨⟨{ Node.empty with children := children.entries }, table⟩,
      ofDocument_eq_ok_iff.2 ⟨hobject, htable, children, rfl, hchildren⟩⟩

theorem IsCatalog.isNode
    {keys : List String} {value : Value}
    (h : IsCatalog document)
    (hleads : LeadsFrom document keys value) :
    IsNode value := by
  obtain ⟨hkey, hvalue, hleads⟩ := hleads
  exact (h.categories _ _ hvalue hkey).of_leads hleads

/-- Keys lead to the nodes that are read from the values of the document they lead to. -/
theorem descendant?_root_iff
    {keys : List String} {node : Node}
    (h : ofDocument document = .ok catalog)
    (hkeys : keys ≠ []) :
    Node.descendant? keys catalog.root = some node ↔
      ∃ value, LeadsFrom document keys value ∧ Node.ofValue value.normalize = .ok node := by
  obtain ⟨-, -, children, hroot, hchildren⟩ := ofDocument_eq_ok_iff.1 h
  obtain ⟨key, keys, rfl⟩ := List.exists_cons_of_ne_nil hkeys
  have hchild : ∀ child, catalog.root.child? key = some child ↔
      ∃ value, category? document key = some value ∧ Node.ofValue value.normalize = .ok child := by
    intro child
    rw [hroot]
    exact eq_some_iff_of_rel (hchildren key) fun hfound hfound' =>
      Except.ok.inj (hfound.symm.trans hfound')
  have hcategory : ∀ value, category? document key = some value ↔
      key ≠ "__resources" ∧ document.member? key = some value := by
    intro value
    rw [category?]
    split <;> simp_all
  rw [Node.descendant?, Option.bind_eq_some_iff]
  simp only [hchild, hcategory]
  constructor
  · rintro ⟨child, ⟨value, ⟨hkey, hvalue⟩, hread⟩, hfound⟩
    obtain ⟨item, hleads, hitem⟩ := (Node.descendant?_eq_some_iff hread).1 hfound
    exact ⟨item, .category hkey hvalue hleads, hitem⟩
  · rintro ⟨item, ⟨hkey, hvalue, hleads⟩, hitem⟩
    obtain ⟨child, hread⟩ := Node.exists_ofValue_iff.2
      ((exists_ofDocument_iff.1 ⟨catalog, h⟩).categories _ _ hvalue hkey)
    exact ⟨child, ⟨_, ⟨hkey, hvalue⟩, hread⟩,
      (Node.descendant?_eq_some_iff hread).2 ⟨item, hleads, hitem⟩⟩

theorem loads_of_ofDocument
    (h : ofDocument document = .ok catalog) :
    Loads document catalog where
  root := by
    obtain ⟨-, -, children, hroot, -⟩ := ofDocument_eq_ok_iff.1 h
    rw [hroot]
  reached keys value hleads := by
    have hne : keys ≠ [] := by
      rintro rfl
      cases hleads
    obtain ⟨node, hnode⟩ := Node.exists_ofValue_iff.2
      ((exists_ofDocument_iff.1 ⟨catalog, h⟩).isNode hleads)
    exact ⟨node, (descendant?_root_iff h hne).2 ⟨value, hleads, hnode⟩,
      Node.describes_of_ofValue hnode⟩
  only keys node hne hnode := by
    obtain ⟨value, hleads, hread⟩ := (descendant?_root_iff h hne).1 hnode
    exact ⟨value, hleads, Node.describes_of_ofValue hread⟩
  node? keys hne hdots := by
    rw [Catalog.node?, Text.segments_joinSegments hne hdots]
  resource? name resource := by
    obtain ⟨-, hresources, -⟩ := ofDocument_eq_ok_iff.1 h
    rw [Catalog.resource?]
    cases hvalue : document.member? "__resources" with
    | none =>
        rw [hvalue] at hresources
        rw [← Except.ok.inj hresources]
        simp
    | some value =>
        rw [hvalue] at hresources
        have hentry := (resources_ofValue_normalize.1 hresources).2 name
        have hunique : ∀ {item found found'}, IsResource item found → IsResource item found' →
            found = found' := fun hfound hfound' =>
          Except.ok.inj ((resource_ofValue_eq_ok_iff.2 hfound).symm.trans
            (resource_ofValue_eq_ok_iff.2 hfound'))
        rw [eq_some_iff_of_rel hentry hunique]
        simp
  ordered := isOrdered_of_ofDocument h

end Loading

/-- A document is read as a catalog just if it has the format of one, whatever else is wrong is told
with the code for catalogs, and the catalog has the nodes and resources of the document. -/
theorem ofDocument_iff_isCatalog
    (document : Value) :
    ((∃ catalog, ofDocument document = .ok catalog) ↔ IsCatalog document) ∧
      (∀ error, ofDocument document = .error error → error.code = "P-ERR-CATALOG") ∧
      ∀ catalog, ofDocument document = .ok catalog → Loads document catalog := by
  refine ⟨exists_ofDocument_iff, fun error h => ?_, fun catalog h => loads_of_ofDocument h⟩
  unfold ofDocument at h
  dsimp only at h
  split at h
  · cases h
  · cases h
    rfl

/-- A document with a table of resources and a node that has members of its own. -/
def atlas : Value :=
  .object
    [("__resources",
      .object [("map", .object [("type", .string "image"), ("src", .ofStrings ["/map.png"])])]),
     ("api",
      .object
        [("Atlas",
          .object
            [("__base", .string "var instance = new Atlas();"),
             ("__resources", .ofStrings ["map"]),
             ("open", .bool false),
             ("close", .string "return 1;")])])]

/-- The document has the format, and its nodes and its resource are in the catalog. -/
theorem ofDocument_atlas :
    IsCatalog atlas ∧ ∃ catalog, ofDocument atlas = .ok catalog ∧
      (∃ node, catalog.node? "api.Atlas" = some node ∧
        node.base = some "var instance = new Atlas();") ∧
      (∃ node, catalog.node? "api.Atlas.open" = some node ∧ node.useDefault = true) ∧
      catalog.resource? "map" = some (.medium .image ["/map.png"]) := by
  have hsome : (ofDocument atlas).toOption.isSome := by
    decide +kernel
  obtain ⟨catalog, h⟩ : ∃ catalog, ofDocument atlas = .ok catalog := by
    cases hread : ofDocument atlas with
    | error _ =>
        rw [hread] at hsome
        cases hsome
    | ok catalog =>
        exact ⟨catalog, rfl⟩
  obtain ⟨hformat, -, hloads⟩ := ofDocument_iff_isCatalog atlas
  have hcatalog := hloads catalog h
  have hfree : ∀ {key}, isOwnKey key = false → ¬IsReserved key := by
    intro key hkey hreserved
    rw [isOwnKey_iff.2 hreserved] at hkey
    cases hkey
  have hnode : LeadsFrom atlas ["api", "Atlas"] _ :=
    .category (by decide) rfl (.next (hfree (by decide)) rfl (.here _))
  have hopen : LeadsFrom atlas ["api", "Atlas", "open"] _ :=
    .category (by decide) rfl
      (.next (hfree (by decide)) rfl (.next (hfree (by decide)) rfl (.here _)))
  refine ⟨hformat.1 ⟨catalog, h⟩, catalog, h, ?_, ?_, ?_⟩
  · obtain ⟨node, hfound, hdescribes⟩ := hcatalog.reached _ _ hnode
    rw [← hcatalog.node? _ (by decide) (by decide)] at hfound
    exact ⟨node, hfound, (hdescribes.base _).2 rfl⟩
  · obtain ⟨node, hfound, hdescribes⟩ := hcatalog.reached _ _ hopen
    rw [← hcatalog.node? _ (by decide) (by decide)] at hfound
    exact ⟨node, hfound, hdescribes.useDefault.2 (Or.inl rfl)⟩
  · refine (hcatalog.resource? _ _).2 ⟨_, _, rfl, rfl, .record rfl rfl ?_⟩
    exact .medium .image ["/map.png"]

/-! ## Reserved keys -/

/-- A reserved key below the top of a catalog is one of the four that belong to nodes. -/
theorem mem_ownKeys_of_ofDocument
    {document value item : Value} {catalog : Catalog} {keys : List String} {key : String}
    (h : ofDocument document = .ok catalog)
    (hleads : LeadsFrom document keys value)
    (hitem : value.member? key = some item)
    (hkey : IsReserved key) :
    key ∈ ["__base", "__test", "__resources", "__additional"] := by
  have hnode := (exists_ofDocument_iff.1 ⟨catalog, h⟩).isNode hleads
  cases hnode with
  | test _ | kept =>
      cases hitem
  | mapping own _ =>
      cases own key item hitem hkey <;> decide

/-- At the top every other key is the name of a category, reserved or not. -/
theorem exists_category_of_ofDocument
    {document value : Value} {catalog : Catalog} {key : String}
    (h : ofDocument document = .ok catalog)
    (hvalue : document.member? key = some value)
    (hkey : key ≠ "__resources") :
    ∃ node, catalog.root.child? key = some node ∧ Describes value node := by
  obtain ⟨node, hnode, hdescribes⟩ := (loads_of_ofDocument h).reached [key] value
    (.category hkey hvalue (.here value))
  obtain ⟨child, hchild, hfound⟩ := Option.bind_eq_some_iff.1 hnode
  cases hfound
  exact ⟨node, hchild, hdescribes⟩

end Catalog
end FeatureProbes
