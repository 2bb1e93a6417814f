import FeatureProbes.Script.Rename
import Mathlib.Data.List.Perm.Basic

/-!
# Renamed variables

Which words of a script a renaming replaces.  Only words that are variables are replaced, in the
order of the text.  A word that is the name of a property, too, keeps this name in an object and in
a declared pattern; in an assigned pattern the name is lost.  All variables with a name to be
replaced are reached but those in the default of a property that is renamed itself.
-/

namespace FeatureProbes
namespace Script

/-- A place where a script has a variable. -/
structure Place where
  ident : Ident
  /-- Whether the word is the name of a property of an object or of a declared pattern, too. -/
  isKey : Bool
  deriving Repr, DecidableEq

namespace Place

/-- The replacement of the variable at a place. -/
def edit (fresh : String) (place : Place) : Edit :=
  if place.isKey then .ofShorthand fresh place.ident else .ofIdent fresh place.ident

/-- Whether the variable at a place has one of some names. -/
def isNamed (names : List String) (place : Place) : Bool :=
  names.contains place.ident.name

/-- The replacements of the variables with one of some names. -/
def edits (names : List String) (fresh : String) (places : List Place) : List Edit :=
  (places.filter (isNamed names)).map (edit fresh)

@[simp]
theorem edits_nil
    (names : List String) (fresh : String) :
    edits names fresh [] = [] := rfl

@[simp]
theorem edits_append
    (names : List String) (fresh : String)
    (front back : List Place) :
    edits names fresh (front ++ back) = edits names fresh front ++ edits names fresh back := by
  simp [edits]

theorem edits_cons
    (names : List String) (fresh : String)
    (place : Place) (more : List Place) :
    edits names fresh (place :: more) =
      (if names.contains place.ident.name then [place.edit fresh] else []) ++
        edits names fresh more := by
  rw [edits, List.filter_cons, isNamed]
  split <;> rfl

/-- Only a variable with one of the names is replaced. -/
theorem edits_eq_nil_iff
    {names : List String} {fresh : String} {places : List Place} :
    edits names fresh places = [] ↔ ∀ place ∈ places, place.ident.name ∉ names := by
  simp [edits, isNamed]

end Place

namespace Tree

mutual

/-- The places of the variables of a tree, in the order of the text.  A property of an assigned
pattern that is written by its name alone counts as a variable only. -/
def places : Tree → List Place
  | reference id => [⟨id, false⟩]
  | binding id => [⟨id, false⟩]
  | leaf _ => []
  | node .shorthand [reference id] => [⟨id, true⟩]
  | node .bindingShorthand (binding id :: more) => ⟨id, true⟩ :: placesOfParts more
  | node _ parts => placesOfParts parts

/-- The places of the variables of several trees. -/
def placesOfParts : List Tree → List Place
  | [] => []
  | tree :: more => places tree ++ placesOfParts more

end

mutual

/-- The default of no declared property with one of the names has a variable with one of them. -/
def PlainDefaults (names : List String) : Tree → Prop
  | reference _ => True
  | binding _ => True
  | leaf _ => True
  | node .bindingShorthand (binding id :: more) =>
      (names.contains id.name → ∀ place ∈ placesOfParts more, ¬place.isNamed names) ∧
        PlainDefaultsOfParts names more
  | node _ parts => PlainDefaultsOfParts names parts

/-- The same for several trees. -/
def PlainDefaultsOfParts (names : List String) : List Tree → Prop
  | [] => True
  | tree :: more => PlainDefaults names tree ∧ PlainDefaultsOfParts names more

end

/-- The places of a construct that is no property written by its name alone. -/
theorem places_node
    {form : Form} {parts : List Tree}
    (hshorthand : ∀ id, form = .shorthand → parts = [.reference id] → False)
    (hbinding : ∀ id more, form = .bindingShorthand → parts = .binding id :: more → False) :
    places (.node form parts) = placesOfParts parts := by
  rw [places]
  · exact hshorthand
  · exact hbinding

theorem plainDefaults_node
    {names : List String} {form : Form} {parts : List Tree}
    (hbinding : ∀ id more, form = .bindingShorthand → parts = .binding id :: more → False) :
    PlainDefaults names (.node form parts) = PlainDefaultsOfParts names parts := by
  rw [PlainDefaults]
  exact hbinding

/-- The places of a tree are those of its uses and its declarations of variables. -/
theorem identifiers_perm
    (tree : Tree) :
    (tree.places.map Place.ident).Perm (tree.references ++ tree.bindings) := by
  refine (places.mutual_induct
    (fun tree => (tree.places.map Place.ident).Perm (tree.references ++ tree.bindings))
    (fun parts => ((placesOfParts parts).map Place.ident).Perm
      (referencesOfParts parts ++ bindingsOfParts parts)) ?_ ?_ ?_ ?_ ?_ ?_ ?_ ?_).1 tree
  case refine_1 | refine_2 | refine_3 | refine_4 | refine_7 =>
    intros
    simp [places, placesOfParts, references, referencesOfParts, bindings, bindingsOfParts]
  case refine_5 =>
    intro id more ih
    simpa [places, references, referencesOfParts, bindings, bindingsOfParts] using
      (ih.cons id).trans List.perm_middle.symm
  case refine_6 =>
    intro form parts hshorthand hbinding ih
    rw [places_node hshorthand hbinding]
    simpa [references, bindings] using ih
  case refine_8 =>
    intro tree more ihTree ihMore
    rw [placesOfParts, referencesOfParts, bindingsOfParts, List.map_append]
    refine (ihTree.append ihMore).trans ?_
    simp only [List.append_assoc]
    exact (List.perm_append_comm_assoc ..).append_left _

end Tree

namespace Edit

variable (names : List String) (fresh : String)

/-- The replacements in a declared property that is written by its name alone. -/
theorem ofTree_bindingShorthand
    (id : Ident) (more : List Tree) :
    ofTree names fresh (.node .bindingShorthand (.binding id :: more)) =
      if names.contains id.name then [ofShorthand fresh id] else ofTrees names fresh more := by
  rw [ofTree]

/-- The replacements in a construct that is no property written by its name alone. -/
theorem ofTree_node
    {form : Form} {parts : List Tree}
    (hshorthand : ∀ id, form = .shorthand → parts = [.reference id] → False)
    (hbinding : ∀ id more, form = .bindingShorthand → parts = .binding id :: more → False) :
    ofTree names fresh (.node form parts) = ofTrees names fresh parts := by
  rw [ofTree]
  · exact hshorthand
  · exact hbinding

/-- Every edit replaces a variable with one of the names, in the order of the text, and keeps the
name of a property. -/
theorem ofTree_sublist
    (tree : Tree) :
    (ofTree names fresh tree).Sublist (Place.edits names fresh tree.places) := by
  refine (Tree.places.mutual_induct
    (fun tree => (ofTree names fresh tree).Sublist (Place.edits names fresh tree.places))
    (fun parts => (ofTrees names fresh parts).Sublist
      (Place.edits names fresh (Tree.placesOfParts parts)))
    ?_ ?_ ?_ ?_ ?_ ?_ ?_ ?_).1 tree
  case refine_1 | refine_2 | refine_3 | refine_4 | refine_7 =>
    intros
    simp [ofTree, ofTrees, Tree.places, Tree.placesOfParts, Place.edits_cons, Place.edit]
  case refine_5 =>
    intro id more ih
    rw [ofTree_bindingShorthand, Tree.places, Place.edits_cons]
    split
    · exact List.sublist_append_left ..
    · exact ih
  case refine_6 =>
    intro form parts hshorthand hbinding ih
    rwa [ofTree_node names fresh hshorthand hbinding, Tree.places_node hshorthand hbinding]
  case refine_8 =>
    intro tree more ihTree ihMore
    rw [ofTrees, Tree.placesOfParts, Place.edits_append]
    exact ihTree.append ihMore

/-- All variables with the names are replaced if the defaults of renamed properties have none. -/
theorem ofTree_eq_edits
    {tree : Tree}
    (h : tree.PlainDefaults names) :
    ofTree names fresh tree = Place.edits names fresh tree.places := by
  revert h
  refine (Tree.places.mutual_induct
    (fun tree => tree.PlainDefaults names →
      ofTree names fresh tree = Place.edits names fresh tree.places)
    (fun parts => Tree.PlainDefaultsOfParts names parts →
      ofTrees names fresh parts = Place.edits names fresh (Tree.placesOfParts parts))
    ?_ ?_ ?_ ?_ ?_ ?_ ?_ ?_).1 tree
  case refine_1 | refine_2 | refine_3 | refine_4 | refine_7 =>
    intros
    simp [ofTree, ofTrees, Tree.places, Tree.placesOfParts, Place.edits_cons, Place.edit]
  case refine_5 =>
    intro id more ih h
    obtain ⟨hdefault, hmore⟩ := h
    rw [ofTree_bindingShorthand, Tree.places, Place.edits_cons]
    split
    · rename_i hnamed
      have hnone : Place.edits names fresh (Tree.placesOfParts more) = [] := by
        rw [Place.edits_eq_nil_iff]
        simpa [Place.isNamed] using hdefault hnamed
      rw [hnone]
      rfl
    · exact ih hmore
  case refine_6 =>
    intro form parts hshorthand hbinding ih h
    rw [ofTree_node names fresh hshorthand hbinding, Tree.places_node hshorthand hbinding]
    exact ih (Tree.plainDefaults_node hbinding ▸ h)
  case refine_8 =>
    intro tree more ihTree ihMore h
    obtain ⟨htree, hmore⟩ := h
    rw [ofTrees, Tree.placesOfParts, Place.edits_append, ihTree htree, ihMore hmore]

end Edit

/-- A script without uses and declarations of the variables stays as it is. -/
theorem renameVariables_of_absent
    {names : List String} {fresh code : String}
    (h : ∀ tree, parse code.toList = .ok tree →
      ∀ id ∈ tree.references ++ tree.bindings, id.name ∉ names) :
    renameVariables names fresh code = code := by
  rw [renameVariables]
  split
  · rename_i tree hparse
    have hplaces : ∀ place ∈ tree.places, place.ident.name ∉ names := fun place hplace =>
      h tree hparse _ (tree.identifiers_perm.mem_iff.1 (List.mem_map_of_mem hplace))
    have hnone : Edit.ofTree names fresh tree = [] := by
      have hsub := Edit.ofTree_sublist names fresh tree
      rwa [Place.edits_eq_nil_iff.2 hplaces, List.sublist_nil] at hsub
    rw [hnone, Edit.applyAll, List.mergeSort_nil]
    exact String.ofList_toList
  · rfl

/-- A renaming replaces the variables with the names and nothing else, if no default of a declared
property with one of the names has such a variable. -/
theorem renameVariables_eq
    {names : List String} {code : String} {tree : Tree}
    (fresh : String)
    (hparse : parse code.toList = .ok tree)
    (hplain : tree.PlainDefaults names) :
    renameVariables names fresh code =
      String.ofList (Edit.applyAll (Place.edits names fresh tree.places) code.toList) := by
  rw [renameVariables, hparse, ← Edit.ofTree_eq_edits names fresh hplain]

/-- The name of a property in an assigned pattern is lost. -/
example :
    renameVariables ["a"] "v" "({a} = b)" = "({v} = b)" := by
  cbv

end Script
end FeatureProbes
