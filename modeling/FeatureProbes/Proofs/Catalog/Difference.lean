import FeatureProbes.Proofs.Catalog.Finished
import FeatureProbes.Proofs.Catalog.Places

/-!
# Catalogs that differ in one test

Two catalogs are equal but for the test of one node, which both of them have.  The setup code of
all nodes is the same, so imports are expanded in the same way.  What the catalogs say about a path
then differs in the code at most, and only at the path of that node: the names that lead to it,
with dots between them.

The two runs may note different diagnostics on the way.  So the results are compared whatever was
noted before.
-/

namespace FeatureProbes
namespace Catalog

open Reporting (Related Orderly Yields)

namespace Node

/-- Two trees are equal but for the test of the node that some names lead to. -/
inductive DiffersAt : List String → Node → Node → Prop
  | here
      (node : Node) (test test' : String) :
      DiffersAt [] { node with test := some test } { node with test := some test' }
  | deeper
      (node : Node)
      {name : String} {names : List String} {child child' : Node}
      (before after : List (String × Node))
      (hchild : DiffersAt names child child') :
      DiffersAt (name :: names)
        { node with children := before ++ (name, child) :: after }
        { node with children := before ++ (name, child') :: after }

theorem sizeOfChildren_append
    (before after : List (String × Node)) :
    sizeOfChildren (before ++ after) = sizeOfChildren before + sizeOfChildren after := by
  induction before with
  | nil =>
      simp [sizeOfChildren]
  | cons head rest ih =>
      obtain ⟨name, child⟩ := head
      rw [List.cons_append, sizeOfChildren, sizeOfChildren, ih, Nat.add_assoc]

theorem DiffersAt.size_eq
    {names : List String} {first second : Node}
    (h : DiffersAt names first second) :
    first.size = second.size := by
  induction h with
  | here node test test' =>
      rfl
  | deeper node before after hchild ih =>
      simp only [size, sizeOfChildren_append, sizeOfChildren, ih]

/-- Two nodes at the same place of two trees that differ at some names. -/
def CloseAt
    (keys place : List String)
    (first second : Node) : Prop :=
  first = second ∨ ∃ names, keys = place ++ names ∧ DiffersAt names first second

section CloseAt

variable {keys place : List String} {first second : Node}

theorem CloseAt.eq_but_test_and_children
    (h : CloseAt keys place first second) :
    second = { first with test := second.test, children := second.children } := by
  rcases h with rfl | ⟨names, -, h⟩
  · cases first
    rfl
  · cases h <;> rfl

theorem CloseAt.base_eq
    (h : CloseAt keys place first second) :
    first.base = second.base :=
  (congrArg Node.base h.eq_but_test_and_children).symm

theorem CloseAt.useDefault_eq
    (h : CloseAt keys place first second) :
    first.useDefault = second.useDefault :=
  (congrArg Node.useDefault h.eq_but_test_and_children).symm

theorem CloseAt.resources_eq
    (h : CloseAt keys place first second) :
    first.resources = second.resources :=
  (congrArg Node.resources h.eq_but_test_and_children).symm

theorem CloseAt.additional_eq
    (h : CloseAt keys place first second) :
    first.additional = second.additional :=
  (congrArg Node.additional h.eq_but_test_and_children).symm

/-- Both nodes have a test or none has, and at every other place the tests are the same. -/
theorem CloseAt.rel_test
    (h : CloseAt keys place first second) :
    Option.Rel (fun test test' => place ≠ keys → test = test') first.test second.test := by
  have hsame : ∀ test : Option String,
      Option.Rel (fun test test' => place ≠ keys → test = test') test test := by
    intro test
    cases test with
    | none =>
        exact .none
    | some test =>
        exact .some fun _ => rfl
  rcases h with rfl | ⟨names, hkeys, h⟩
  · exact hsame first.test
  · cases h with
    | here node test test' =>
        exact .some fun hplace => absurd (hkeys.trans (List.append_nil place)).symm hplace
    | deeper node before after hchild =>
        exact hsame node.test

theorem CloseAt.test_eq
    (h : CloseAt keys place first second)
    (hplace : place ≠ keys) :
    first.test = second.test := by
  have htest := h.rel_test
  generalize first.test = test, second.test = test' at htest ⊢
  cases htest with
  | none =>
      rfl
  | some htest =>
      exact congrArg some (htest hplace)

/-- The nodes below are close to each other one by one. -/
theorem CloseAt.children
    (h : CloseAt keys place first second) :
    List.Forall₂ (SortedMap.EntryAgree fun name => CloseAt keys (place ++ [name]))
      first.children second.children := by
  have hsame : ∀ children : List (String × Node),
      List.Forall₂ (SortedMap.EntryAgree fun name => CloseAt keys (place ++ [name]))
        children children :=
    fun children => List.forall₂_same.2 fun _ _ => ⟨rfl, Or.inl rfl⟩
  rcases h with rfl | ⟨names, hkeys, h⟩
  · exact hsame _
  · cases h with
    | here node test test' =>
        exact hsame _
    | @deeper node name names child child' before after hchild =>
        have hplace : keys = (place ++ [name]) ++ names := by
          rw [hkeys, List.append_assoc]
          rfl
        have hmiddle : SortedMap.EntryAgree (fun name => CloseAt keys (place ++ [name]))
            (name, child) (name, child') :=
          ⟨rfl, Or.inr ⟨names, hplace, hchild⟩⟩
        exact List.rel_append (hsame before) (.cons hmiddle (hsame after))

theorem CloseAt.child?
    (h : CloseAt keys place first second)
    (name : String) :
    Option.Rel (CloseAt keys (place ++ [name])) (first.child? name) (second.child? name) :=
  SortedMap.rel_find? h.children

theorem CloseAt.descendant?
    (h : CloseAt keys place first second)
    (names : List String) :
    Option.Rel (CloseAt keys (place ++ names)) (Node.descendant? names first)
      (Node.descendant? names second) := by
  induction names generalizing place first second with
  | nil =>
      rw [List.append_nil]
      exact .some h
  | cons name names ih =>
      rw [Node.descendant?, Node.descendant?]
      have hchild := h.child? name
      revert hchild
      cases first.child? name with
      | none =>
          cases second.child? name with
          | none =>
              exact fun _ => .none
          | some child' =>
              intro hchild
              cases hchild
      | some child =>
          cases second.child? name with
          | none =>
              intro hchild
              cases hchild
          | some child' =>
              rintro ⟨hchild⟩
              have hmore := ih hchild
              rwa [List.append_assoc] at hmore

end CloseAt
end Node

/-- Two catalogs are equal but for the test of the node that some names lead to. -/
structure DiffersAt
    (keys : List String)
    (first second : Catalog) : Prop where
  root : first.root.DiffersAt keys second.root
  resources : first.resources = second.resources

namespace DiffersAt

variable {keys : List String} {first second : Catalog}

theorem rel_node?
    (h : DiffersAt keys first second)
    (path : String) :
    Option.Rel (Node.CloseAt keys (Text.segments path)) (first.node? path) (second.node? path) := by
  have hroot : Node.CloseAt keys [] first.root second.root :=
    Or.inr ⟨keys, (List.nil_append keys).symm, h.root⟩
  exact hroot.descendant? (Text.segments path)

theorem sameSetup
    (h : DiffersAt keys first second) :
    SameSetup first second := by
  refine ⟨h.root.size_eq, funext fun path => ?_, h.resources⟩
  rw [base?, base?]
  have hnode := h.rel_node? path
  generalize first.node? path = found, second.node? path = found' at hnode ⊢
  cases hnode with
  | none =>
      rfl
  | some hnode =>
      exact hnode.base_eq

end DiffersAt

/-! ## Tests -/

/-- Two overrides for a path have the same resources, and the same test unless it is the path that
is left out. -/
structure Override.AgreeBut
    (spared path : String)
    (first second : Override) : Prop where
  resources : first.resources = second.resources
  test : path ≠ spared → first.test = second.test

theorem segments_ne_of_ne
    {path : String} {keys : List String}
    (h : path ≠ Text.joinSegments keys) :
    Text.segments path ≠ keys := by
  rintro rfl
  exact h (Text.joinSegments_segments path).symm

theorem segments_append_ne_of_ne
    {owner name : String} {keys : List String}
    (h : owner ++ "." ++ name ≠ Text.joinSegments keys) :
    Text.segments owner ++ [name] ≠ keys := by
  rintro rfl
  rw [Text.joinSegments_append_singleton name (Text.segments_ne_nil owner),
    Text.joinSegments_segments] at h
  exact h rfl

theorem resources_of_yields_conclude
    {path : String} {resources : Resources} {body : Option String} {result : Override}
    (h : Yields (conclude path resources body) result) :
    result.resources = resources := by
  cases body with
  | none =>
      obtain ⟨before, after, h⟩ := h
      rw [← (Reporting.gives_pure_iff.1 h).1]
  | some body =>
      obtain ⟨text, -, before, after, h⟩ := Reporting.yields_bind h
      rw [← (Reporting.gives_pure_iff.1 h).1]

/-- Two tests at a path agree if their resources do and their bodies are resolved in the same way,
which need not be so at the path that is left out. -/
theorem related_conclude
    {spared path : String} {resolve resolve' : Reporting (Option String)} (resources : Resources)
    (h : path ≠ spared → Related Eq resolve resolve') :
    Related (Override.AgreeBut spared path) (resolve >>= conclude path resources)
      (resolve' >>= conclude path resources) := by
  by_cases hpath : path = spared
  · intro result result' hresult hresult'
    obtain ⟨body, -, hresult⟩ := Reporting.yields_bind hresult
    obtain ⟨body', -, hresult'⟩ := Reporting.yields_bind hresult'
    refine ⟨?_, fun hne => absurd hpath hne⟩
    rw [resources_of_yields_conclude hresult, resources_of_yields_conclude hresult']
  · refine (h hpath).bind fun body _ hbody => ?_
    rw [← hbody]
    refine (orderly_conclude path resources body).related.mono fun result _ hresult => ?_
    rw [← hresult]
    exact ⟨rfl, fun _ => rfl⟩

section Tests

variable {keys : List String} {first second : Catalog}

theorem DiffersAt.related_test
    (h : DiffersAt keys first second)
    (path : String) :
    Related (Override.AgreeBut (Text.joinSegments keys) path) (first.test path)
      (second.test path) := by
  have hdata : Related
      (fun node node' => node.base = node'.base ∧ node.resources = node'.resources ∧
        (path ≠ Text.joinSegments keys → node.test = node'.test))
      (Reporting.ofExcept (first.data path)) (Reporting.ofExcept (second.data path)) := by
    have hnode := h.rel_node? path
    rw [data, data, h.sameSetup.findResources_eq]
    generalize first.node? path = found, second.node? path = found' at hnode ⊢
    cases hnode with
    | none =>
        exact Reporting.related_pure ⟨rfl, rfl, fun _ => rfl⟩
    | @some node node' hnode =>
        dsimp only
        rw [← hnode.resources_eq]
        cases second.findResources path node.resources with
        | error error =>
            rintro _ _ ⟨_, _, hfails⟩
            simp at hfails
        | ok resources =>
            refine Reporting.related_pure ⟨hnode.base_eq, rfl, fun hpath => ?_⟩
            exact hnode.test_eq (segments_ne_of_ne hpath)
  refine hdata.bind fun node node' hnode => ?_
  obtain ⟨hbase, hresources, htest⟩ := hnode
  rw [h.sameSetup.findResources_eq, ← hresources]
  refine Reporting.related_ofExcept_bind fun resources => ?_
  refine related_conclude resources fun hpath => ?_
  have hbody : first.ownBody path node = second.ownBody path node' := by
    rw [ownBody, ownBody, h.sameSetup.expand?_eq, hbase, htest hpath]
  rw [hbody]
  exact (holdsOfBodies_orderly.ownBody path node').related

theorem DiffersAt.related_interfaceTest
    (h : DiffersAt keys first second)
    (interface : String) :
    Related (Override.AgreeBut (Text.joinSegments keys) (interfacePath interface))
      (first.interfaceTest interface) (second.interfaceTest interface) := by
  have hnode := h.rel_node? (interfacePath interface)
  unfold interfaceTest
  dsimp only
  generalize first.node? (interfacePath interface) = found,
    second.node? (interfacePath interface) = found' at hnode ⊢
  cases hnode with
  | none =>
      exact Reporting.related_pure ⟨rfl, fun _ => rfl⟩
  | @some node node' hnode =>
      dsimp only
      rw [h.sameSetup.findResources_eq, h.sameSetup.expand?_eq, ← hnode.resources_eq, ← hnode.base_eq]
      refine Reporting.related_ofExcept_bind fun resources => ?_
      refine (holdsOfBodies_orderly.expand? _ node.base).related.bind fun base _ hbase => ?_
      rw [← hbase]
      refine related_conclude resources fun hpath => ?_
      have hbody : first.interfaceBody (interfacePath interface) node base =
          second.interfaceBody (interfacePath interface) node' base := by
        unfold interfaceBody
        rw [h.sameSetup.expand_eq, hnode.test_eq (segments_ne_of_ne hpath)]
      rw [hbody]
      exact (holdsOfBodies_orderly.interfaceBody _ node' base).related

theorem DiffersAt.related_memberTest
    (h : DiffersAt keys first second)
    (interface member : String)
    (kind : ProbeKind) :
    Related (Override.AgreeBut (Text.joinSegments keys) (memberPath interface member))
      (first.memberTest interface member kind) (second.memberTest interface member kind) := by
  have hnode := h.rel_node? (interfacePath interface)
  unfold memberTest
  dsimp only
  generalize first.node? (interfacePath interface) = found,
    second.node? (interfacePath interface) = found' at hnode ⊢
  cases hnode with
  | none =>
      exact Reporting.related_pure ⟨rfl, fun _ => rfl⟩
  | @some node node' hnode =>
      dsimp only
      rw [h.sameSetup.findResources_eq, h.sameSetup.expand?_eq, ← hnode.resources_eq, ← hnode.base_eq]
      refine Reporting.related_ofExcept_bind fun shared => ?_
      refine (holdsOfBodies_orderly.expand? _ node.base).related.bind fun base _ hbase => ?_
      rw [← hbase]
      by_cases hkind : kind = .constructor
      · rw [if_pos hkind, if_pos hkind]
        exact Reporting.related_pure ⟨rfl, fun _ => rfl⟩
      · rw [if_neg hkind, if_neg hkind]
        have hchild := hnode.child? member
        generalize node.child? member = found, node'.child? member = found' at hchild ⊢
        cases hchild with
        | none =>
            refine Related.bind (Reporting.related_pure rfl) fun own _ hown => ?_
            rw [← hown]
            refine related_conclude (shared.union own) fun _ => ?_
            exact (holdsOfBodies_orderly.memberBody _ member kind base none).related
        | @some child child' hchild =>
            dsimp only
            rw [← hchild.resources_eq]
            refine Reporting.related_ofExcept_bind fun own => ?_
            refine related_conclude (shared.union own) fun hpath => ?_
            have hbody : ∀ path, first.memberBody path member kind base child =
                second.memberBody path member kind base child' := by
              intro path
              unfold memberBody childBody
              dsimp only
              rw [h.sameSetup.expand_eq, h.sameSetup.expand?_eq, hchild.useDefault_eq, hchild.base_eq,
                hchild.test_eq (segments_append_ne_of_ne hpath)]
            rw [hbody]
            exact (holdsOfBodies_orderly.memberBody _ member kind base (some child')).related

/-- Two tests that authors wrote below an interface have the same path and name the same resources,
and they have the same code unless the path is the one that is left out. -/
structure Subtest.AgreeBut
    (spared interface : String)
    (first second : Subtest) : Prop where
  path : first.path = second.path
  resources : first.owner.resources = second.owner.resources
  code : memberPath interface first.path ≠ spared → first.code = second.code

theorem forall₂_childSubtests
    {interface name : String} {known : NameSet} {child child' : Node}
    (h : Node.CloseAt keys (Text.segments (interfacePath interface) ++ [name]) child child') :
    List.Forall₂ (Subtest.AgreeBut (Text.joinSegments keys) interface)
      (childSubtests known name child) (childSubtests known name child') := by
  have htest := h.rel_test
  rw [childSubtests, childSubtests, ← h.additional_eq]
  refine List.rel_append ?_ ?_
  · generalize child.test = test, child'.test = test' at htest ⊢
    cases htest with
    | none =>
        exact .nil
    | some htest =>
        dsimp only
        split
        · exact .nil
        · refine .cons ⟨rfl, h.resources_eq, fun hpath => ?_⟩ .nil
          exact htest (segments_append_ne_of_ne hpath)
  · rw [List.forall₂_map_left_iff, List.forall₂_map_right_iff, List.forall₂_same]
    exact fun _ _ => ⟨rfl, h.resources_eq, fun _ => rfl⟩

theorem forall₂_subtestsOf
    {interface : String} {node node' : Node}
    (known : NameSet)
    (h : Node.CloseAt keys (Text.segments (interfacePath interface)) node node') :
    List.Forall₂ (Subtest.AgreeBut (Text.joinSegments keys) interface)
      (subtestsOf known node) (subtestsOf known node') := by
  rw [subtestsOf, subtestsOf, ← h.additional_eq]
  refine List.rel_append ?_ ?_
  · rw [List.forall₂_map_left_iff, List.forall₂_map_right_iff, List.forall₂_same]
    exact fun _ _ => ⟨rfl, h.resources_eq, fun _ => rfl⟩
  · refine List.rel_flatMap h.children ?_
    rintro ⟨name, child⟩ ⟨name', child'⟩ ⟨hname, hchild⟩
    cases hname
    exact forall₂_childSubtests hchild

/-- Two overrides for a subtest agree, and both of them have a test. -/
structure Override.BothTest
    (spared interface path : String)
    (first second : Override) : Prop where
  agree : AgreeBut spared (memberPath interface path) first second
  left : first.test.isSome
  right : second.test.isSome

/-- The code of a test that an author wrote below an interface, with the setup code in front. -/
def expandAndFinish
    (catalog : Catalog)
    (path base code : String) :
    Reporting String := do
  let text ← catalog.expand path code
  finish path (Script.join [base, text])

theorem orderly_expandAndFinish
    (catalog : Catalog)
    (path base code : String) :
    Orderly (fun _ => True) (expandAndFinish catalog path base code) :=
  ((orderly_expandWithin _ code).mono fun _ _ => trivial).bind fun _ => orderly_finish _ _

theorem DiffersAt.related_subtest
    (h : DiffersAt keys first second)
    {interface : String} {item item' : Subtest}
    (base : String)
    (shared : Resources)
    (hitem : Subtest.AgreeBut (Text.joinSegments keys) interface item item') :
    Related (SortedMap.EntryAgree (Override.BothTest (Text.joinSegments keys) interface))
      (first.subtest (interfacePath interface) base shared item)
      (second.subtest (interfacePath interface) base shared item') := by
  unfold subtest
  dsimp only
  rw [h.sameSetup.findResources_eq, h.sameSetup.expand_eq, ← hitem.path, ← hitem.resources]
  refine Reporting.related_ofExcept_bind fun own => ?_
  have htext : Related
      (fun text text' => memberPath interface item.path ≠ Text.joinSegments keys → text = text')
      (expandAndFinish second (memberPath interface item.path) base item.code)
      (expandAndFinish second (memberPath interface item.path) base item'.code) := by
    intro text text' htext htext' hpath
    rw [← hitem.code hpath] at htext'
    exact (orderly_expandAndFinish _ _ _ _).yields_unique htext htext'
  rw [← bind_assoc, ← bind_assoc]
  refine htext.bind fun text text' heq => ?_
  refine Reporting.related_pure ⟨rfl, ⟨rfl, fun hpath => ?_⟩, rfl, rfl⟩
  exact congrArg some (heq hpath)

theorem DiffersAt.related_subtests
    (h : DiffersAt keys first second)
    (interface : String)
    (known : NameSet) :
    Related (SortedMap.Agree (Override.BothTest (Text.joinSegments keys) interface))
      (first.subtests interface known) (second.subtests interface known) := by
  have hnode := h.rel_node? (interfacePath interface)
  unfold subtests
  dsimp only
  generalize first.node? (interfacePath interface) = found,
    second.node? (interfacePath interface) = found' at hnode ⊢
  cases hnode with
  | none =>
      exact Reporting.related_pure .nil
  | @some node node' hnode =>
      dsimp only
      rw [h.sameSetup.findResources_eq, h.sameSetup.expand?_eq, ← hnode.resources_eq, ← hnode.base_eq]
      refine Reporting.related_ofExcept_bind fun shared => ?_
      refine (holdsOfBodies_orderly.expand? _ node.base).related.bind fun base _ hbase => ?_
      rw [← hbase]
      have hitems := Related.mapM (forall₂_subtestsOf known hnode) fun item item' =>
        h.related_subtest (base.getD "") shared
      refine hitems.bind fun entries entries' hentries => ?_
      exact Reporting.related_pure (SortedMap.agree_ofList hentries)

end Tests

end Catalog
end FeatureProbes
