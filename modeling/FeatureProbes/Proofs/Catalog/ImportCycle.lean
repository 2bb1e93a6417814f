import FeatureProbes.Proofs.Catalog.Expansion
import FeatureProbes.Proofs.Catalog.Places
import Mathlib.Data.List.Chain

/-!
# Cycles of imports

Expanding the imports of code follows every token into the setup code of its node, and it keeps
the row of paths that it is inside of.  The row never holds a path twice, and all its paths but
the origin lead to nodes, so it never gets longer than the tree has nodes and the bound on the
depth is never reached.

It follows that expanding fails for one reason only.  Some row of imports, which starts with a
token of the code, comes back to a path of the row or to its origin.
-/

namespace FeatureProbes
namespace Catalog

open Reporting (Gives Fails)

/-- The setup code at a path has a token for another path. -/
def Imports (catalog : Catalog) (path target : String) : Prop :=
  ∃ base, catalog.base? path = some base ∧ target ∈ importTargets base

/-- A row of imports that comes back.  The paths in `visited` are those that the code is inside of,
the first of them its origin.  From the code the row goes on through the paths in `path`, and then
to `last`. -/
structure ImportCycle
    (catalog : Catalog)
    (visited : List String)
    (code : String)
    (path : List String)
    (last : String) : Prop where
  /-- The first step is a token of the code. -/
  starts : ∀ first ∈ (path ++ [last]).head?, first ∈ importTargets code
  /-- Every further step is a token of the setup code at the path before it. -/
  linked : (path ++ [last]).IsChain catalog.Imports
  /-- No path occurs twice before the last step. -/
  distinct : (visited ++ path).Nodup
  /-- The last step leads back. -/
  closes : last ∈ visited ++ path

/-- What holds of the paths that the expanded code is inside of. -/
structure Entered
    (catalog : Catalog)
    (visited : List String) : Prop where
  distinct : visited.Nodup
  /-- All but the origin lead to nodes. -/
  nodes : ∀ path ∈ visited.tail, (catalog.node? path).isSome

section Entered

variable {catalog : Catalog} {visited : List String}

theorem entered_singleton
    (origin : String) :
    Entered catalog [origin] :=
  ⟨List.nodup_singleton origin, by simp⟩

theorem isSome_node?_of_base?
    {path base : String}
    (h : catalog.base? path = some base) :
    (catalog.node? path).isSome := by
  rw [base?, Option.bind_eq_some_iff] at h
  obtain ⟨node, hnode, -⟩ := h
  rw [hnode]
  rfl

theorem Entered.append
    {target base : String}
    (h : Entered catalog visited)
    (hnew : target ∉ visited)
    (hbase : catalog.base? target = some base) :
    Entered catalog (visited ++ [target]) := by
  refine ⟨?_, ?_⟩
  · refine List.nodup_append.2 ⟨h.distinct, List.nodup_singleton target, ?_⟩
    intro path hpath other hother heq
    rw [List.mem_singleton.1 hother] at heq
    exact hnew (heq ▸ hpath)
  · intro path hpath
    cases visited with
    | nil =>
        simp at hpath
    | cons origin more =>
        rw [List.cons_append, List.tail_cons, List.mem_append] at hpath
        rcases hpath with hpath | hpath
        · exact h.nodes path hpath
        · rw [List.mem_singleton.1 hpath]
          exact isSome_node?_of_base? hbase

/-- Only one path more than there are nodes may be entered. -/
theorem Entered.length_le
    (h : Entered catalog visited) :
    visited.length ≤ catalog.root.size + 1 := by
  have htail := length_le_size (h.distinct.sublist (List.tail_sublist visited)) h.nodes
  rw [List.length_tail] at htail
  omega

end Entered

/-! ## Rows of imports -/

section ImportCycle

variable {catalog : Catalog} {visited path : List String} {code target base last : String}

/-- A token for a path that has been entered closes a row. -/
theorem importCycle_nil
    (hentered : Entered catalog visited)
    (htarget : last ∈ importTargets code)
    (hmem : last ∈ visited) :
    ImportCycle catalog visited code [] last where
  starts := by simpa using htarget
  linked := List.isChain_singleton last
  distinct := by simpa using hentered.distinct
  closes := by simpa using hmem

/-- A row that goes through the setup code at a new path is a row from there. -/
theorem importCycle_cons_iff
    (hbase : catalog.base? target = some base) :
    ImportCycle catalog visited code (target :: path) last ↔
      target ∈ importTargets code ∧
        ImportCycle catalog (visited ++ [target]) base path last := by
  have hnext :
      (∀ next ∈ (path ++ [last]).head?, catalog.Imports target next) ↔
        ∀ next ∈ (path ++ [last]).head?, next ∈ importTargets base := by
    simp [Imports, hbase]
  have happend : visited ++ target :: path = visited ++ [target] ++ path := by
    simp
  constructor
  · rintro ⟨hstarts, hlinked, hdistinct, hcloses⟩
    rw [List.cons_append, List.isChain_cons] at hlinked
    rw [happend] at hdistinct hcloses
    exact ⟨hstarts target rfl, hnext.1 hlinked.1, hlinked.2, hdistinct, hcloses⟩
  · rintro ⟨htarget, hstarts, hlinked, hdistinct, hcloses⟩
    rw [← happend] at hdistinct hcloses
    refine ⟨?_, ?_, hdistinct, hcloses⟩
    · intro first hfirst
      cases hfirst
      exact htarget
    · rw [List.cons_append, List.isChain_cons]
      exact ⟨hnext.2 hstarts, hlinked⟩

theorem ImportCycle.exists_base
    (h : ImportCycle catalog visited code (target :: path) last) :
    ∃ base, catalog.base? target = some base := by
  have hlinked := h.linked
  rw [List.cons_append, List.isChain_cons] at hlinked
  obtain ⟨next, hnext⟩ : ∃ next, (path ++ [last]).head? = some next := by
    cases path <;> simp
  obtain ⟨base, hbase, -⟩ := hlinked.1 next hnext
  exact ⟨base, hbase⟩

theorem ImportCycle.head_not_mem
    (h : ImportCycle catalog visited code (target :: path) last) :
    target ∉ visited := by
  intro hmem
  exact (List.nodup_append.1 h.distinct).2.2 target hmem target List.mem_cons_self rfl

end ImportCycle

/-! ## Failures of expanding -/

/-- Every failure of expanding is a row of imports that comes back, and it names the row. -/
theorem importCycle_of_fails
    {catalog : Catalog} {depth : Nat} {visited : List String} {code : String}
    {before after : Diagnostics} {error : BuildError}
    (hentered : Entered catalog visited)
    (hroom : catalog.root.size + 2 ≤ depth + visited.length)
    (h : Fails (expandWithin catalog depth visited.reverse code) before error after) :
    ∃ path last, ImportCycle catalog visited code path last ∧
      error = .cyclicImport last (visited ++ path) := by
  induction depth generalizing visited code before after with
  | zero =>
      have hle := hentered.length_le
      omega
  | succ depth ih =>
      rw [expandWithin_succ, Reporting.fails_map_iff] at h
      obtain ⟨piece, hpiece, first, final, hfails⟩ := Reporting.Fails.of_mapM h
      obtain ⟨token, rfl, hcase⟩ := exists_token_of_fails hfails
      have htarget := mem_importTargets_iff.2 ⟨token, hpiece, rfl⟩
      rcases hcase with ⟨hmem, rfl⟩ | ⟨hnew, base, hbase, hbelow⟩
      · exact ⟨[], _, importCycle_nil hentered htarget hmem, by simp⟩
      · have hroom' : catalog.root.size + 2 ≤
            depth + (visited ++ [String.ofList token.target]).length := by
          rw [List.length_append, List.length_singleton]
          omega
        obtain ⟨path, last, hcycle, rfl⟩ := ih (hentered.append hnew hbase) hroom' hbelow
        refine ⟨_ :: path, last, (importCycle_cons_iff hbase).2 ⟨htarget, hcycle⟩, ?_⟩
        simp

/-- Where a row of imports comes back, expanding fails, whatever has been noted before. -/
theorem ImportCycle.fails
    {catalog : Catalog} {visited path : List String} {code last : String}
    (h : ImportCycle catalog visited code path last)
    (depth : Nat)
    (before : Diagnostics) :
    ∃ error after, Fails (expandWithin catalog depth visited.reverse code) before error after := by
  induction path generalizing visited code depth before with
  | nil =>
      cases depth with
      | zero =>
          exact ⟨_, _, rfl⟩
      | succ depth =>
          obtain ⟨token, hpiece, htoken⟩ := mem_importTargets_iff.1 (h.starts last rfl)
          have hmem : String.ofList token.target ∈ visited := by
            have hcloses := h.closes
            rw [List.append_nil] at hcloses
            exact htoken ▸ hcloses
          have hpieces := Reporting.exists_fails_mapM hpiece
            (f := expandPiece catalog depth visited.reverse) (fun first => by
              rw [expandPiece_of_mem hmem]
              exact ⟨_, first, rfl⟩) before
          rw [expandWithin_succ]
          simpa [Reporting.fails_map_iff] using hpieces
  | cons target path ih =>
      cases depth with
      | zero =>
          exact ⟨_, _, rfl⟩
      | succ depth =>
          obtain ⟨base, hbase⟩ := h.exists_base
          have hnew := h.head_not_mem
          obtain ⟨htarget, hbelow⟩ := (importCycle_cons_iff hbase).1 h
          obtain ⟨token, hpiece, rfl⟩ := mem_importTargets_iff.1 htarget
          have hpieces := Reporting.exists_fails_mapM hpiece
            (f := expandPiece catalog depth visited.reverse) (fun first => by
              rw [expandPiece_of_base hnew hbase]
              simpa [Reporting.fails_map_iff] using ih hbelow depth first) before
          rw [expandWithin_succ]
          simpa [Reporting.fails_map_iff] using hpieces

/-! ## The bound on the depth -/

/-- Two depths that leave room for every path that may still be entered come to the same. -/
theorem expandWithin_eq_of_room
    {catalog : Catalog} {depth depth' : Nat} {visited : List String} {code : String}
    (hentered : Entered catalog visited)
    (hroom : catalog.root.size + 2 ≤ depth + visited.length)
    (hroom' : catalog.root.size + 2 ≤ depth' + visited.length) :
    expandWithin catalog depth visited.reverse code =
      expandWithin catalog depth' visited.reverse code := by
  have hle := hentered.length_le
  induction depth generalizing depth' visited code with
  | zero =>
      omega
  | succ depth ih =>
      cases depth' with
      | zero =>
          omega
      | succ depth' =>
          have hpiece :
              expandPiece catalog depth visited.reverse =
                expandPiece catalog depth' visited.reverse := by
            funext piece
            cases piece with
            | char c =>
                rfl
            | token token =>
                by_cases hmem : String.ofList token.target ∈ visited
                · rw [expandPiece_of_mem hmem, expandPiece_of_mem hmem]
                · cases hbase : catalog.base? (String.ofList token.target) with
                  | none =>
                      rw [expandPiece_of_no_base hmem hbase, expandPiece_of_no_base hmem hbase]
                  | some base =>
                      have hnext := hentered.append hmem hbase
                      rw [expandPiece_of_base hmem hbase, expandPiece_of_base hmem hbase,
                        ih hnext _ _ hnext.length_le]
                      all_goals
                        rw [List.length_append, List.length_singleton]
                        omega
          rw [expandWithin_succ, expandWithin_succ, hpiece]

/-! ## Imports in layers -/

/-- Where every import leads to a lower layer, no row of imports comes back, however often a path
is imported. -/
theorem not_importCycle_of_rank
    {catalog : Catalog} {visited path : List String} {code last : String}
    (rank : String → Nat)
    (himports : ∀ path target, catalog.Imports path target → rank target < rank path)
    (hcode : ∀ target ∈ importTargets code, ∀ path ∈ visited, rank target < rank path) :
    ¬ImportCycle catalog visited code path last := by
  induction path generalizing visited code with
  | nil =>
      intro h
      have hlast := h.closes
      rw [List.append_nil] at hlast
      exact Nat.lt_irrefl _ (hcode last (h.starts last rfl) last hlast)
  | cons target path ih =>
      intro h
      obtain ⟨base, hbase⟩ := h.exists_base
      obtain ⟨htarget, hbelow⟩ := (importCycle_cons_iff hbase).1 h
      refine ih ?_ hbelow
      intro next hnext entered hentered
      have hlower := himports target next ⟨base, hbase, hnext⟩
      rcases List.mem_append.1 hentered with hentered | hentered
      · exact hlower.trans (hcode target htarget entered hentered)
      · rw [List.mem_singleton.1 hentered]
        exact hlower

/-! ## The law of cycles -/

/-- Expanding the imports of code never reaches its bound on the depth, so every larger bound comes
to the same.  It fails, and then as a cyclic import, just where a row of imports from the code comes
back to a path that it has been at or to its origin; else it gives a text.  So where every import
leads to a lower layer it gives a text, although a path may be imported many times and by many
ways. -/
theorem expand_fails_iff_importCycle
    (catalog : Catalog)
    (origin code : String)
    (before : Diagnostics) :
    (∀ depth, catalog.root.size < depth →
        expandWithin catalog depth [origin] code = catalog.expand origin code) ∧
      ((∃ target chain after,
          Fails (catalog.expand origin code) before (.cyclicImport target chain) after) ↔
        ∃ path last, ImportCycle catalog [origin] code path last) ∧
      ((∃ text after, Gives (catalog.expand origin code) before text after) ↔
        ¬∃ path last, ImportCycle catalog [origin] code path last) ∧
      ∀ rank : String → Nat,
        (∀ target ∈ importTargets code, rank target < rank origin) →
        (∀ path target, catalog.Imports path target → rank target < rank path) →
        ∃ text after, Gives (catalog.expand origin code) before text after := by
  have hentered : Entered catalog [origin] := entered_singleton origin
  have hcycle : ∀ {error after}, Fails (catalog.expand origin code) before error after →
      ∃ path last, ImportCycle catalog [origin] code path last ∧
        error = .cyclicImport last ([origin] ++ path) := by
    intro error after hfails
    exact importCycle_of_fails hentered (by simp) hfails
  have hgives :
      (∃ text after, Gives (catalog.expand origin code) before text after) ↔
        ¬∃ path last, ImportCycle catalog [origin] code path last := by
    constructor
    · rintro ⟨text, after, h⟩ ⟨path, last, hrow⟩
      obtain ⟨error, after', hfails⟩ := hrow.fails (catalog.root.size + 1) before
      exact h.not_fails hfails
    · intro hnone
      rcases Reporting.gives_or_fails (catalog.expand origin code) before with h | h
      · exact h
      · obtain ⟨error, after, hfails⟩ := h
        obtain ⟨path, last, hrow, -⟩ := hcycle hfails
        exact absurd ⟨path, last, hrow⟩ hnone
  refine ⟨?_, ⟨?_, ?_⟩, hgives, ?_⟩
  · intro depth hdepth
    exact expandWithin_eq_of_room hentered (by simp; omega) (by simp)
  · rintro ⟨target, chain, after, hfails⟩
    obtain ⟨path, last, hrow, -⟩ := hcycle hfails
    exact ⟨path, last, hrow⟩
  · rintro ⟨path, last, hrow⟩
    obtain ⟨error, after, hfails⟩ := hrow.fails (catalog.root.size + 1) before
    obtain ⟨path', last', -, rfl⟩ := hcycle hfails
    exact ⟨_, _, _, hfails⟩
  · intro rank hcode himports
    refine hgives.2 ?_
    rintro ⟨path, last, hrow⟩
    refine not_importCycle_of_rank rank himports ?_ hrow
    intro target htarget entered hentered
    rw [List.mem_singleton.1 hentered]
    exact hcode target htarget

/-- A catalog in which two paths import the same path. -/
def diamond : Catalog where
  root :=
    { Node.empty with
      children :=
        [("api",
          { Node.empty with
            children :=
              [("B", { Node.empty with base := some "<%api.D:left%>" }),
                ("C", { Node.empty with base := some "<%api.D:right%>" }),
                ("D", { Node.empty with base := some "var instance = 1;" })] })] }
  resources := .empty

/-- The layer of a row of names of the diamond. -/
def diamondLayer (names : List String) : Nat :=
  if names = ["api", "A"] then 2
  else if names = ["api", "B"] ∨ names = ["api", "C"] then 1
  else 0

theorem lower_layer_of_imports
    (path target : String)
    (h : diamond.Imports path target) :
    diamondLayer (Text.segments target) < diamondLayer (Text.segments path) := by
  obtain ⟨base, hbase, htarget⟩ := h
  obtain ⟨node, hnode⟩ := Option.isSome_iff_exists.1 (isSome_node?_of_base? hbase)
  have hplace := Node.mem_places_of_descendant? hnode
  have hplaces : diamond.root.places =
      [[], ["api"], ["api", "B"], ["api", "C"], ["api", "D"]] := by
    decide
  rw [hplaces] at hplace
  simp only [base?, node?] at hbase
  generalize Text.segments path = names at *
  simp only [List.mem_cons, List.not_mem_nil, or_false] at hplace
  rcases hplace with rfl | rfl | rfl | rfl | rfl
  · cases hbase
  · cases hbase
  · cases hbase
    revert target
    decide
  · cases hbase
    revert target
    decide
  · cases hbase
    revert target
    decide

/-- The diamond is expanded, although it comes to one path four times. -/
theorem expand_diamond :
    ∃ text after,
      Gives
        (diamond.expand "api.A" "<%api.B:one%> <%api.C:two%> <%api.C:three%> <%api.D:four%>")
        [] text after :=
  (expand_fails_iff_importCycle diamond "api.A"
    "<%api.B:one%> <%api.C:two%> <%api.C:three%> <%api.D:four%>" []).2.2.2
    (fun path => diamondLayer (Text.segments path)) (by decide) lower_layer_of_imports

end Catalog
end FeatureProbes
