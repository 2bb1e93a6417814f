import FeatureProbes.Proofs.Catalog.Calls
import FeatureProbes.Proofs.Catalog.Reachability

/-!
# What the tests of an interface depend on

The tests that a catalog has for an interface are made of the node of the interface and the nodes
below it, of the resources that they name, and of the setup code that their code leads to.  Two
catalogs with the same of all these give the same answers about the interface, they fail for the
same reasons, and they note the same, however much they differ elsewhere.
-/

namespace FeatureProbes
namespace Catalog

namespace Node

mutual

/-- All code in a tree: setup code, tests and further tests. -/
def codes : Node → List String
  | ⟨base, test, _, _, additional, children⟩ =>
      base.toList ++ test.toList ++ additional.entries.map Prod.snd ++ codesOfChildren children

def codesOfChildren : List (String × Node) → List String
  | [] => []
  | (_, node) :: more => codes node ++ codesOfChildren more

end

mutual

/-- The names of all resources that the nodes of a tree need. -/
def resourceNames : Node → List String
  | ⟨_, _, _, resources, _, children⟩ => resources ++ resourceNamesOfChildren children

def resourceNamesOfChildren : List (String × Node) → List String
  | [] => []
  | (_, node) :: more => resourceNames node ++ resourceNamesOfChildren more

end

section Parts

variable {node child : Node} {name code : String} {children : List (String × Node)}

theorem codes_eq
    (node : Node) :
    node.codes = node.base.toList ++ node.test.toList ++
      node.additional.entries.map Prod.snd ++ codesOfChildren node.children := by
  cases node
  rw [codes]

theorem resourceNames_eq
    (node : Node) :
    node.resourceNames = node.resources ++ resourceNamesOfChildren node.children := by
  cases node
  rw [resourceNames]

theorem mem_codes_of_base
    (h : code ∈ node.base) :
    code ∈ node.codes := by
  simp [codes_eq, Option.mem_def.1 h]

theorem mem_codes_of_test
    (h : code ∈ node.test) :
    code ∈ node.codes := by
  simp [codes_eq, Option.mem_def.1 h]

theorem mem_codes_of_additional
    (h : (name, code) ∈ node.additional.entries) :
    code ∈ node.codes := by
  have hcode := List.mem_map_of_mem (f := Prod.snd) h
  simp only [codes_eq, List.mem_append]
  exact Or.inl (Or.inr hcode)

theorem codesOfChildren_eq_flatMap
    (children : List (String × Node)) :
    codesOfChildren children = children.flatMap fun child => codes child.2 := by
  induction children with
  | nil =>
      rfl
  | cons head more ih =>
      rw [codesOfChildren, ih, List.flatMap_cons]

theorem resourceNamesOfChildren_eq_flatMap
    (children : List (String × Node)) :
    resourceNamesOfChildren children = children.flatMap fun child => resourceNames child.2 := by
  induction children with
  | nil =>
      rfl
  | cons head more ih =>
      rw [resourceNamesOfChildren, ih, List.flatMap_cons]

/-- The code in a node below is code in the tree. -/
theorem codes_subset
    (h : (name, child) ∈ node.children) :
    child.codes ⊆ node.codes := by
  intro code hcode
  rw [codes_eq node, codesOfChildren_eq_flatMap]
  exact List.mem_append_right _ (List.mem_flatMap_of_mem h hcode)

theorem resources_subset
    (node : Node) :
    node.resources ⊆ node.resourceNames := by
  rw [resourceNames_eq]
  exact List.subset_append_left _ _

/-- What a node below needs, the tree needs. -/
theorem resourceNames_subset
    (h : (name, child) ∈ node.children) :
    child.resourceNames ⊆ node.resourceNames := by
  intro name hname
  rw [resourceNames_eq node, resourceNamesOfChildren_eq_flatMap]
  exact List.mem_append_right _ (List.mem_flatMap_of_mem h hname)

end Parts

/-- A test below an interface is code in the tree, and it needs resources that the tree names. -/
theorem of_mem_subtestsOf
    {known : NameSet} {node : Node} {item : Subtest}
    (h : item ∈ subtestsOf known node) :
    item.code ∈ node.codes ∧ item.owner.resources ⊆ node.resourceNames := by
  rw [subtestsOf, List.mem_append] at h
  rcases h with h | h
  · obtain ⟨⟨name, code⟩, hcode, rfl⟩ := List.mem_map.1 h
    exact ⟨mem_codes_of_additional hcode, resources_subset node⟩
  · obtain ⟨⟨name, child⟩, hchild, h⟩ := List.mem_flatMap.1 h
    have hneeds := List.Subset.trans (resources_subset child) (resourceNames_subset hchild)
    dsimp only at h
    rw [childSubtests, List.mem_append] at h
    rcases h with h | h
    · cases htest : child.test with
      | none =>
          rw [htest] at h
          cases h
      | some test =>
          rw [htest] at h
          dsimp only at h
          split at h
          · cases h
          · obtain rfl := List.mem_singleton.1 h
            exact ⟨codes_subset hchild (mem_codes_of_test htest), hneeds⟩
    · obtain ⟨⟨below, code⟩, hcode, rfl⟩ := List.mem_map.1 h
      exact ⟨codes_subset hchild (mem_codes_of_additional hcode), hneeds⟩

end Node

/-- Two catalogs that have the same tree of nodes for an interface, or none, the same resources, or
none, for the names in it, and the same setup code, or none, wherever code in it leads. -/
structure SameFor
    (first second : Catalog)
    (interface : String) : Prop where
  node : first.node? (interfacePath interface) = second.node? (interfacePath interface)
  resource : ∀ node ∈ first.node? (interfacePath interface), ∀ name ∈ node.resourceNames,
    first.resource? name = second.resource? name
  setup : ∀ node ∈ first.node? (interfacePath interface), ∀ code ∈ node.codes,
    AgreeFrom first second code

section SameFor

variable {first second : Catalog} {interface : String} {node : Node}

theorem AgreeFrom.expand?_eq
    {code : Option String}
    (h : ∀ text ∈ code, AgreeFrom first second text)
    (origin : String) :
    first.expand? origin code = second.expand? origin code := by
  cases code with
  | none =>
      rfl
  | some text =>
      rw [expand?, expand?, (h text rfl).expand_eq]

/-- Resources are found alike where both catalogs have the same for each name. -/
theorem findResources_congr
    {names : List String}
    (h : ∀ name ∈ names, first.resource? name = second.resource? name)
    (path : String) :
    first.findResources path names = second.findResources path names := by
  unfold findResources
  rw [Reporting.mapM_congr fun name hname => by rw [h name hname]]

namespace SameFor

variable (h : SameFor first second interface)
include h

theorem findResources_eq
    {names : List String}
    (hnode : first.node? (interfacePath interface) = some node)
    (hnames : names ⊆ node.resourceNames)
    (path : String) :
    first.findResources path names = second.findResources path names :=
  findResources_congr (fun name hname => h.resource node hnode name (hnames hname)) path

theorem expand_eq
    {code : String}
    (hnode : first.node? (interfacePath interface) = some node)
    (hcode : code ∈ node.codes)
    (origin : String) :
    first.expand origin code = second.expand origin code :=
  (h.setup node hnode code hcode).expand_eq origin

theorem expand?_eq
    {code : Option String}
    (hnode : first.node? (interfacePath interface) = some node)
    (hcode : ∀ text ∈ code, text ∈ node.codes)
    (origin : String) :
    first.expand? origin code = second.expand? origin code :=
  AgreeFrom.expand?_eq (fun text htext => h.setup node hnode text (hcode text htext)) origin

theorem interfaceTest_eq :
    first.interfaceTest interface = second.interfaceTest interface := by
  unfold interfaceTest
  simp only [← h.node]
  cases hnode : first.node? (interfacePath interface) with
  | none =>
      rfl
  | some node =>
      have hbase := h.expand?_eq hnode (fun _ => Node.mem_codes_of_base) (interfacePath interface)
      have hbody : first.interfaceBody (interfacePath interface) node =
          second.interfaceBody (interfacePath interface) node := by
        funext base
        unfold interfaceBody
        cases htest : node.test with
        | none =>
            cases base <;> rfl
        | some test =>
            dsimp only
            rw [h.expand_eq hnode (Node.mem_codes_of_test htest)]
      simp only [h.findResources_eq hnode (Node.resources_subset node), hbase, hbody]

/-- The body of the test of a member is made of code in the tree. -/
theorem memberBody_eq
    {name : String}
    (hnode : first.node? (interfacePath interface) = some node)
    (path : String)
    (kind : ProbeKind)
    (base : Option String) :
    first.memberBody path name kind base (node.child? name) =
      second.memberBody path name kind base (node.child? name) := by
  unfold memberBody
  cases hchild : node.child? name with
  | none =>
      rfl
  | some child =>
      dsimp only
      cases htest : child.test with
      | none =>
          rfl
      | some test =>
          have hsubset := Node.codes_subset (Node.mem_children_of_child? hchild)
          have hown := h.expand?_eq hnode
            (fun _ htext => hsubset (Node.mem_codes_of_base htext)) path
          dsimp only
          unfold childBody
          rw [hown, h.expand_eq hnode (hsubset (Node.mem_codes_of_test htest))]

theorem memberTest_eq
    (member : String)
    (kind : ProbeKind) :
    first.memberTest interface member kind = second.memberTest interface member kind := by
  unfold memberTest
  simp only [← h.node]
  cases hnode : first.node? (interfacePath interface) with
  | none =>
      rfl
  | some node =>
      have hbase := h.expand?_eq hnode (fun _ => Node.mem_codes_of_base) (interfacePath interface)
      simp only [h.findResources_eq hnode (Node.resources_subset node), hbase,
        h.memberBody_eq hnode]
      cases hchild : node.child? member with
      | none =>
          rfl
      | some child =>
          have hneeds := List.Subset.trans (Node.resources_subset child)
            (Node.resourceNames_subset (Node.mem_children_of_child? hchild))
          simp only [h.findResources_eq hnode hneeds]

theorem subtests_eq
    (known : NameSet) :
    first.subtests interface known = second.subtests interface known := by
  unfold subtests
  simp only [← h.node]
  cases hnode : first.node? (interfacePath interface) with
  | none =>
      rfl
  | some node =>
      have hbase := h.expand?_eq hnode (fun _ => Node.mem_codes_of_base) (interfacePath interface)
      have hitems : ∀ base shared,
          (subtestsOf known node).mapM (first.subtest (interfacePath interface) base shared) =
            (subtestsOf known node).mapM
              (second.subtest (interfacePath interface) base shared) := by
        intro base shared
        refine Reporting.mapM_congr fun item hitem => ?_
        obtain ⟨hcode, hneeds⟩ := Node.of_mem_subtestsOf hitem
        unfold subtest
        simp only [h.findResources_eq hnode hneeds, h.expand_eq hnode hcode]
      simp only [h.findResources_eq hnode (Node.resources_subset node), hbase, hitems]

end SameFor

/-- The answers about an interface depend on its own tree of nodes, on the resources that the tree
names, and on the setup code that code in the tree leads to.  Two catalogs with the same of these
take the same steps: they come to the same, be it a result or an error, and note the same after any
diagnostics. -/
theorem answers_eq_of_sameFor
    (h : SameFor first second interface) :
    first.interfaceTest interface = second.interfaceTest interface ∧
      (∀ member kind,
        first.memberTest interface member kind = second.memberTest interface member kind) ∧
      ∀ known, first.subtests interface known = second.subtests interface known :=
  ⟨h.interfaceTest_eq, h.memberTest_eq, h.subtests_eq⟩

end SameFor

/-- A loom, which is set up with a shuttle and needs thread. -/
def loom : Node :=
  { Node.empty with
    base := some "<%api.Shuttle:instance%>"
    resources := ["thread"]
    children := [("weave", { Node.empty with test := some "return instance.weave();" })] }

/-- A catalog with the loom, a shuttle that may have a test, thread, and further resources. -/
def mill (test : Option String) (stock : List (String × Resource)) : Catalog where
  root :=
    { Node.empty with
      children :=
        [("api",
          { Node.empty with
            children :=
              [("Loom", loom),
                ("Shuttle",
                  { Node.empty with
                    base := some "var instance = 1;"
                    test := test })] })] }
  resources := .ofList (("thread", .object "spin();") :: stock)

/-- The loom is tested alike in two mills with different shuttle tests and different stocks. -/
theorem memberTest_mill :
    SameFor (mill none []) (mill (some "return 1;") [("dye", .object "mix();")]) "Loom" ∧
      (mill none []).memberTest "Loom" "weave" .property =
        (mill (some "return 1;") [("dye", .object "mix();")]).memberTest "Loom" "weave"
          .property := by
  have hnode : (mill none []).node? (interfacePath "Loom") = some loom := rfl
  have hfirst : ∀ code ∈ loom.codes, ∀ target ∈ importTargets code, target = "api.Shuttle" := by
    decide +kernel
  have hnext : ∀ target, ¬(mill none []).Imports "api.Shuttle" target := by
    rintro target ⟨base, hbase, htarget⟩
    obtain rfl := Option.some.inj hbase
    have hnone : importTargets "var instance = 1;" = [] := by decide +kernel
    rw [hnone] at htarget
    cases htarget
  have hsame :
      SameFor (mill none []) (mill (some "return 1;") [("dye", .object "mix();")]) "Loom" := by
    refine ⟨rfl, fun node hmem => ?_, fun node hmem code hcode path hpath => ?_⟩
    · obtain rfl := Option.some.inj (hnode.symm.trans hmem)
      decide +kernel
    · obtain rfl := Option.some.inj (hnode.symm.trans hmem)
      -- The loom leads to the shuttle, and the shuttle leads nowhere.
      have hshuttle : path = "api.Shuttle" := by
        induction hpath with
        | token htarget =>
            exact hfirst code hcode _ htarget
        | onward _ himports ih =>
            rw [ih] at himports
            exact absurd himports (hnext _)
      rw [hshuttle]
      rfl
  exact ⟨hsame, (answers_eq_of_sameFor hsame).2.1 "weave" .property⟩

end Catalog
end FeatureProbes
