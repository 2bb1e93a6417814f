import FeatureProbes.Catalog.Import
import FeatureProbes.Proofs.Reporting

/-!
# Expanding imports

Code is expanded piece by piece.  A token comes to an error, a note, or the expanded setup code of
its node, and each of the three has a law of its own.

Expanding notes nothing but invalid imports, and what it gives does not depend on what was noted
before.  Code without tokens stays as it is.
-/

namespace FeatureProbes
namespace Catalog

open Reporting (Gives Fails Orderly)

/-- The paths that the tokens of code name. -/
def importTargets (code : String) : List String :=
  (importTokens code).map fun token => String.ofList token.target

theorem mem_importTargets_iff
    {target code : String} :
    target ∈ importTargets code ↔
      ∃ token, Piece.token token ∈ pieces code ∧ String.ofList token.target = target := by
  rw [importTargets, List.mem_map]
  constructor
  · rintro ⟨token, htoken, rfl⟩
    rw [importTokens, List.mem_filterMap] at htoken
    obtain ⟨piece, hpiece, heq⟩ := htoken
    cases piece with
    | char c =>
        cases heq
    | token found =>
        cases heq
        exact ⟨token, hpiece, rfl⟩
  · rintro ⟨token, hpiece, rfl⟩
    exact ⟨token, List.mem_filterMap.2 ⟨.token token, hpiece, rfl⟩, rfl⟩

/-! ## Expanding one piece of code -/

/-- What a piece of code is replaced by. -/
def expandPiece
    (catalog : Catalog)
    (depth : Nat)
    (chain : List String) :
    Piece → Reporting (List Char)
  | .char c => pure [c]
  | .token token => do
      let target := String.ofList token.target
      if chain.contains target then
        throw (BuildError.cyclicImport target chain.reverse)
      match catalog.base? target with
      | none =>
          let message := invalidImportMessage token
          Reporting.report "P-DIAG-IMPORT" (chain.headD "") message
          return (Script.throwing message).toList
      | some base =>
          let imported ← expandWithin catalog depth (target :: chain) base
          return (bindInstance imported (String.ofList token.variableName)).toList

theorem expandWithin_succ
    (catalog : Catalog) (depth : Nat) (chain : List String) (code : String) :
    expandWithin catalog (depth + 1) chain code =
      (fun parts => String.ofList parts.flatten) <$>
        (pieces code).mapM (expandPiece catalog depth chain) := by
  rfl

section Piece

variable {catalog : Catalog} {depth : Nat} {visited : List String} {token : ImportToken}

theorem expandPiece_of_mem
    (h : String.ofList token.target ∈ visited) :
    expandPiece catalog depth visited.reverse (.token token) =
      throw (BuildError.cyclicImport (String.ofList token.target) visited) := by
  simp [expandPiece, h]

theorem expandPiece_of_base
    {base : String}
    (hnew : String.ofList token.target ∉ visited)
    (hbase : catalog.base? (String.ofList token.target) = some base) :
    expandPiece catalog depth visited.reverse (.token token) =
      (fun imported =>
          (bindInstance imported (String.ofList token.variableName)).toList) <$>
        expandWithin catalog depth (visited ++ [String.ofList token.target]).reverse base := by
  simp [expandPiece, hnew, hbase]

theorem expandPiece_of_no_base
    (hnew : String.ofList token.target ∉ visited)
    (hbase : catalog.base? (String.ofList token.target) = none) :
    expandPiece catalog depth visited.reverse (.token token) =
      (fun _ => (Script.throwing (invalidImportMessage token)).toList) <$>
        Reporting.report "P-DIAG-IMPORT" (visited.reverse.headD "")
          (invalidImportMessage token) := by
  simp [expandPiece, hnew, hbase]

/-- A piece fails if its target has been entered already, or if the setup code it stands for
fails. -/
theorem exists_token_of_fails
    {piece : Piece} {before after : Diagnostics} {error : BuildError}
    (h : Fails (expandPiece catalog depth visited.reverse piece) before error after) :
    ∃ token, piece = .token token ∧
      ((String.ofList token.target ∈ visited ∧
          error = .cyclicImport (String.ofList token.target) visited) ∨
        (String.ofList token.target ∉ visited ∧
          ∃ base, catalog.base? (String.ofList token.target) = some base ∧
            Fails
              (expandWithin catalog depth (visited ++ [String.ofList token.target]).reverse base)
              before error after)) := by
  cases piece with
  | char c =>
      simp [expandPiece] at h
  | token token =>
      refine ⟨token, rfl, ?_⟩
      by_cases hmem : String.ofList token.target ∈ visited
      · rw [expandPiece_of_mem hmem, Reporting.fails_throw_iff] at h
        exact Or.inl ⟨hmem, h.1.symm⟩
      · cases hbase : catalog.base? (String.ofList token.target) with
        | none =>
            rw [expandPiece_of_no_base hmem hbase, Reporting.fails_map_iff] at h
            exact absurd h Reporting.not_fails_report
        | some base =>
            rw [expandPiece_of_base hmem hbase, Reporting.fails_map_iff] at h
            exact Or.inr ⟨hmem, base, rfl, h⟩

end Piece

/-! ## Catalogs with the same setup code -/

/-- Two catalogs have as many nodes, the same setup code at each path, and the same resources. -/
structure SameSetup (first second : Catalog) : Prop where
  size : first.root.size = second.root.size
  base : first.base? = second.base?
  resources : first.resources = second.resources

namespace SameSetup

variable {first second : Catalog}

theorem expandWithin_eq
    (h : SameSetup first second)
    (depth : Nat) :
    expandWithin first depth = expandWithin second depth := by
  induction depth with
  | zero =>
      rfl
  | succ depth ih =>
      funext chain code
      rw [expandWithin_succ, expandWithin_succ]
      have hpiece : expandPiece first depth chain = expandPiece second depth chain := by
        funext piece
        unfold expandPiece
        rw [h.base, ih]
      rw [hpiece]

/-- Imports are expanded in the same way. -/
theorem expand_eq
    (h : SameSetup first second) :
    first.expand = second.expand := by
  funext origin code
  rw [expand, expand, h.size, h.expandWithin_eq]

end SameSetup

/-! ## Expanding imports and diagnostics -/

/-- A note about an import of a node without setup code. -/
def IsImportNote (note : Diagnostic) : Prop :=
  note.code = "P-DIAG-IMPORT"

section Expand

variable {catalog : Catalog} {depth : Nat}

theorem orderly_expandPiece
    (h : ∀ chain code, Orderly IsImportNote (expandWithin catalog depth chain code))
    (chain : List String)
    (piece : Piece) :
    Orderly IsImportNote (expandPiece catalog depth chain piece) := by
  cases piece with
  | char c =>
      exact Reporting.orderly_pure [c]
  | token token =>
      rw [← chain.reverse_reverse]
      by_cases hmem : String.ofList token.target ∈ chain.reverse
      · rw [expandPiece_of_mem hmem]
        exact Reporting.orderly_throw _
      · cases hbase : catalog.base? (String.ofList token.target) with
        | none =>
            rw [expandPiece_of_no_base hmem hbase]
            have hreport : Orderly IsImportNote
                (Reporting.report "P-DIAG-IMPORT" (chain.reverse.reverse.headD "")
                  (invalidImportMessage token)) :=
              Reporting.orderly_report rfl
            exact hreport.map _
        | some base =>
            rw [expandPiece_of_base hmem hbase]
            exact (h _ base).map _

theorem orderly_expandWithin
    (chain : List String)
    (code : String) :
    Orderly IsImportNote (expandWithin catalog depth chain code) := by
  induction depth generalizing chain code with
  | zero =>
      exact Reporting.orderly_throw _
  | succ depth ih =>
      rw [expandWithin_succ]
      exact (Orderly.mapM (orderly_expandPiece ih chain) (pieces code)).map _

end Expand

/-! ## Code without imports -/

/-- A text without tokens has its characters for pieces. -/
theorem piecesAfter_zero_of_no_token
    {text : List Char}
    (h : ∀ token, Piece.token token ∉ piecesAfter 0 text) :
    piecesAfter 0 text = text.map Piece.char := by
  induction text with
  | nil =>
      rfl
  | cons c rest ih =>
      rw [piecesAfter] at h ⊢
      cases htoken : tokenAt? (c :: rest) with
      | some token =>
          rw [htoken] at h
          exact absurd List.mem_cons_self (h token)
      | none =>
          rw [htoken] at h
          rw [List.map_cons, ← ih fun token hmem => h token (List.mem_cons_of_mem _ hmem)]

/-- Code without tokens is its own expansion. -/
theorem expand_of_no_import
    {catalog : Catalog} {code : String}
    (origin : String)
    (h : importTargets code = []) :
    catalog.expand origin code = pure code := by
  have hpieces : pieces code = code.toList.map Piece.char := by
    refine piecesAfter_zero_of_no_token ?_
    intro token htoken
    have hmem := mem_importTargets_iff.2 ⟨token, htoken, rfl⟩
    rw [h] at hmem
    exact List.not_mem_nil hmem
  have hsame : expandPiece catalog catalog.root.size [origin] ∘ Piece.char = fun c => pure [c] :=
    rfl
  rw [expand, expandWithin_succ, hpieces, List.mapM_map, hsame, List.mapM_pure, map_pure]
  simp [← List.flatMap_def]

end Catalog
end FeatureProbes
