import FeatureProbes.Proofs.Catalog.Reachability

/-!
# Tokens that name nothing

A token whose path has no setup code is noted under the node that the token belongs to, which need
not be the node that is asked for: the token may stand in setup code that the code leads to.  The
code is expanded from the outside to the inside and may come to a path many times.  Still the notes
are just one for each such token and the node that it belongs to, and what was noted before is not
noted again.

Each such token is replaced by code that throws the message of its note.
-/

namespace FeatureProbes
namespace Catalog

open Reporting (Gives Notes Orderly Yields)

theorem mem_importTokens_iff
    {code : String} {token : ImportToken} :
    token ∈ importTokens code ↔ Piece.token token ∈ pieces code := by
  rw [importTokens, List.mem_filterMap]
  constructor
  · rintro ⟨piece, hpiece, heq⟩
    cases piece with
    | char c =>
        cases heq
    | token found =>
        cases heq
        exact hpiece
  · intro h
    exact ⟨.token token, h, rfl⟩

theorem target_mem_importTargets
    {code : String} {token : ImportToken}
    (h : token ∈ importTokens code) :
    String.ofList token.target ∈ importTargets code :=
  List.mem_map_of_mem h

/-! ## Tokens and the nodes that they belong to -/

/-- A token stands in code, which belongs to the origin, or in the setup code at a path that the
code leads to. -/
inductive Carries
    (catalog : Catalog)
    (origin code : String) :
    String → ImportToken → Prop
  | own {token : ImportToken}
      (htoken : token ∈ importTokens code) :
      Carries catalog origin code origin token
  | reached {path base : String} {token : ImportToken}
      (hpath : catalog.Reaches code path)
      (hbase : catalog.base? path = some base)
      (htoken : token ∈ importTokens base) :
      Carries catalog origin code path token

/-- A token that belongs to a node names a path without setup code. -/
structure Dangles
    (catalog : Catalog)
    (origin code owner : String)
    (token : ImportToken) : Prop where
  carries : catalog.Carries origin code owner token
  base?_eq_none : catalog.base? (String.ofList token.target) = none

/-- The note about a token of a node. -/
def importNote (owner : String) (token : ImportToken) : Diagnostic :=
  ⟨"P-DIAG-IMPORT", owner, invalidImportMessage token⟩

/-- The notes about the tokens that name nothing. -/
def DanglingNote (catalog : Catalog) (origin code : String) (note : Diagnostic) : Prop :=
  ∃ owner token, catalog.Dangles origin code owner token ∧ note = importNote owner token

section Dangles

variable {catalog : Catalog} {origin code owner : String} {token : ImportToken} {note : Diagnostic}

theorem Carries.isValid
    (h : catalog.Carries origin code owner token) :
    token.IsValid := by
  cases h with
  | own htoken =>
      exact (isInfix_of_mem_piecesAfter (mem_importTokens_iff.1 htoken)).1
  | reached _ _ htoken =>
      exact (isInfix_of_mem_piecesAfter (mem_importTokens_iff.1 htoken)).1

/-- The tokens of the setup code at the target of a token are carried with the token. -/
theorem Carries.of_base
    {first : ImportToken} {base : String}
    (hfirst : first ∈ importTokens code)
    (hbase : catalog.base? (String.ofList first.target) = some base)
    (h : catalog.Carries (String.ofList first.target) base owner token) :
    catalog.Carries origin code owner token := by
  have htarget := target_mem_importTargets hfirst
  cases h with
  | own htoken =>
      exact .reached (.token htarget) hbase htoken
  | reached hpath hfound htoken =>
      exact .reached (hpath.of_base htarget hbase) hfound htoken

/-- A token is one of the code, or the setup code at the target of such a token carries it. -/
theorem carries_iff :
    catalog.Carries origin code owner token ↔
      (owner = origin ∧ token ∈ importTokens code) ∨
        ∃ first ∈ importTokens code, ∃ base,
          catalog.base? (String.ofList first.target) = some base ∧
            catalog.Carries (String.ofList first.target) base owner token := by
  constructor
  · intro h
    cases h with
    | own htoken =>
        exact Or.inl ⟨rfl, htoken⟩
    | reached hpath hbase htoken =>
        refine Or.inr ?_
        rcases reaches_iff.1 hpath with htarget | ⟨target, htarget, base, hfirst, hpath⟩
        · obtain ⟨first, hfirst, rfl⟩ := List.mem_map.1 htarget
          exact ⟨first, hfirst, _, hbase, .own htoken⟩
        · obtain ⟨first, hmem, rfl⟩ := List.mem_map.1 htarget
          exact ⟨first, hmem, base, hfirst, .reached hpath hbase htoken⟩
  · rintro (⟨rfl, htoken⟩ | ⟨first, hfirst, base, hbase, h⟩)
    · exact .own htoken
    · exact h.of_base hfirst hbase

/-- A note is one about a token of the code, or one that the setup code at the target of such a
token leads to. -/
theorem danglingNote_iff :
    catalog.DanglingNote origin code note ↔
      ∃ first ∈ importTokens code,
        (catalog.base? (String.ofList first.target) = none ∧ note = importNote origin first) ∨
          ∃ base, catalog.base? (String.ofList first.target) = some base ∧
            catalog.DanglingNote (String.ofList first.target) base note := by
  constructor
  · rintro ⟨owner, token, ⟨hcarries, hnone⟩, rfl⟩
    rcases carries_iff.1 hcarries with ⟨rfl, htoken⟩ | ⟨first, hfirst, base, hbase, hbelow⟩
    · exact ⟨token, htoken, Or.inl ⟨hnone, rfl⟩⟩
    · exact ⟨first, hfirst, Or.inr ⟨base, hbase, owner, token, ⟨hbelow, hnone⟩, rfl⟩⟩
  · rintro ⟨first, hfirst, ⟨hnone, rfl⟩ | ⟨base, hbase, owner, token, ⟨hbelow, hnone⟩, rfl⟩⟩
    · exact ⟨origin, first, ⟨.own hfirst, hnone⟩, rfl⟩
    · exact ⟨owner, token, ⟨hbelow.of_base hfirst hbase, hnone⟩, rfl⟩

theorem spelling_eq_of_message_eq
    {token' : ImportToken}
    (h : invalidImportMessage token = invalidImportMessage token') :
    token.spelling = token'.spelling := by
  have htext := congrArg String.toList h
  unfold invalidImportMessage at htext
  rw [String.toList_append, String.toList_append, String.toList_append,
    String.toList_append] at htext
  have hinner := List.append_cancel_left (List.append_cancel_right htext)
  rwa [String.toList_ofList, String.toList_ofList] at hinner

/-- A note tells the token and the node that it belongs to. -/
theorem importNote_inj
    {owner' : String} {token' : ImportToken}
    (hvalid : token.IsValid)
    (hvalid' : token'.IsValid)
    (h : importNote owner token = importNote owner' token') :
    owner = owner' ∧ token = token' := by
  have howner : owner = owner' := congrArg Diagnostic.path h
  have hmessage : invalidImportMessage token = invalidImportMessage token' :=
    congrArg Diagnostic.message h
  refine ⟨howner, ?_⟩
  -- What is found where a token stands is the token.
  have hfound := tokenAt?_spelling_append hvalid []
  rw [spelling_eq_of_message_eq hmessage, tokenAt?_spelling_append hvalid'] at hfound
  exact (Option.some.inj hfound).symm

end Dangles

/-! ## Notes of an expansion -/

section Expand

variable {catalog : Catalog} {origin code text : String}

/-- A piece notes that it is a token that names nothing, or what its setup code notes. -/
theorem notes_expandPiece
    {depth : Nat}
    (visited : List String)
    (path : String)
    (h : ∀ visited path code,
      Notes (catalog.DanglingNote path code)
        (expandWithin catalog depth (visited ++ [path]).reverse code))
    (piece : Piece) :
    Notes
      (fun note => ∃ token, piece = .token token ∧
        ((catalog.base? (String.ofList token.target) = none ∧ note = importNote path token) ∨
          ∃ base, catalog.base? (String.ofList token.target) = some base ∧
            catalog.DanglingNote (String.ofList token.target) base note))
      (expandPiece catalog depth (visited ++ [path]).reverse piece) := by
  cases piece with
  | char c =>
      exact (Reporting.notes_pure [c]).congr (by simp)
  | token token =>
      by_cases hmem : String.ofList token.target ∈ visited ++ [path]
      · rw [expandPiece_of_mem hmem]
        exact Reporting.notes_throw _ _
      · cases hbase : catalog.base? (String.ofList token.target) with
        | none =>
            rw [expandPiece_of_no_base hmem hbase, List.reverse_append]
            refine ((Reporting.notes_report _ _ _).map _).congr fun note => ?_
            simp [hbase, importNote]
        | some base =>
            rw [expandPiece_of_base hmem hbase]
            refine ((h _ _ base).map _).congr fun note => ?_
            simp [hbase]

/-- Expanding the code of a node notes the tokens that name nothing, as far as the code leads. -/
theorem notes_expandWithin
    (depth : Nat)
    (visited : List String)
    (path code : String) :
    Notes (catalog.DanglingNote path code)
      (expandWithin catalog depth (visited ++ [path]).reverse code) := by
  induction depth generalizing visited path code with
  | zero =>
      exact Reporting.notes_throw _ _
  | succ depth ih =>
      rw [expandWithin_succ]
      have hpieces := Notes.mapM (notes_expandPiece visited path ih) (pieces code)
      refine (hpieces.map _).congr fun note => ?_
      rw [danglingNote_iff]
      simp [mem_importTokens_iff]

/-- What was noted stays, and of the notes about tokens that name nothing those are added that were
not there, each once. -/
theorem exists_notes_of_gives_expand
    {before after : Diagnostics}
    (h : Gives (catalog.expand origin code) before text after) :
    ∃ added, after = before ++ added ∧ added.Nodup ∧
      ∀ note, note ∈ added ↔ note ∉ before ∧ catalog.DanglingNote origin code note := by
  have hmem := notes_expandWithin (catalog.root.size + 1) [] origin code before text after h
  have horderly : Orderly IsImportNote (catalog.expand origin code) :=
    orderly_expandWithin [origin] code
  obtain ⟨added, hadded, hnodup, hnew⟩ :=
    Diagnostics.exists_reportAll_eq_append before ((catalog.expand origin code).outcome []).2
  have hsame : after = before ++ added := by
    rw [← hadded, ← horderly.collects, h]
  refine ⟨added, hsame, hnodup, fun note => ?_⟩
  rw [hsame] at hmem
  constructor
  · intro hadded
    have hnotbefore := hnew note hadded
    exact ⟨hnotbefore, ((hmem note).1 (List.mem_append_right _ hadded)).resolve_left hnotbefore⟩
  · rintro ⟨hnotbefore, hnote⟩
    exact (List.mem_append.1 ((hmem note).2 (Or.inr hnote))).resolve_left hnotbefore

/-! ## Texts of an expansion -/

/-- Where code is expanded, the setup code at the target of a token is expanded too. -/
theorem exists_yields_expand_of_base
    {token : ImportToken} {base : String}
    (h : Yields (catalog.expand origin code) text)
    (htoken : token ∈ importTokens code)
    (hbase : catalog.base? (String.ofList token.target) = some base) :
    ∃ imported, Yields (catalog.expand (String.ofList token.target) base) imported ∧
      tokenText catalog token =
        (bindInstance imported (String.ofList token.variableName)).toList := by
  have hpiece := (yields_expand_iff.1 h).1 _ (mem_importTokens_iff.1 htoken)
  obtain ⟨-, ⟨hnone, -⟩ | ⟨found, imported, hfound, himported, htext⟩⟩ :=
    yields_expandPiece_token_iff.1 hpiece
  · rw [hbase] at hnone
    cases hnone
  · cases hbase.symm.trans hfound
    refine ⟨imported, ?_, htext⟩
    exact yields_expandWithin_mono himported (Nat.le_succ _)
      (List.cons_subset_cons _ (List.nil_subset _))

/-- Where code is expanded, the setup code is expanded at each path that the code leads to. -/
theorem Reaches.exists_yields_expand
    {path base : String}
    (hpath : catalog.Reaches code path)
    (h : Yields (catalog.expand origin code) text)
    (hbase : catalog.base? path = some base) :
    ∃ imported, Yields (catalog.expand path base) imported := by
  induction hpath generalizing base with
  | token htarget =>
      obtain ⟨token, htoken, rfl⟩ := List.mem_map.1 htarget
      obtain ⟨imported, himported, -⟩ := exists_yields_expand_of_base h htoken hbase
      exact ⟨imported, himported⟩
  | onward _ hnext ih =>
      obtain ⟨before, hbefore, htarget⟩ := hnext
      obtain ⟨token, htoken, rfl⟩ := List.mem_map.1 htarget
      obtain ⟨_, hfirst⟩ := ih hbefore
      obtain ⟨imported, himported, -⟩ := exists_yields_expand_of_base hfirst htoken hbase
      exact ⟨imported, himported⟩

theorem tokenText_of_base?_eq_none
    {token : ImportToken}
    (h : catalog.base? (String.ofList token.target) = none) :
    tokenText catalog token = (Script.throwing (invalidImportMessage token)).toList := by
  rw [tokenText, h]

/-- The text of a token is its expanded setup code, with the instance in the variable. -/
theorem Carries.tokenText_eq
    {owner base : String} {token : ImportToken}
    (hcarries : catalog.Carries origin code owner token)
    (h : Yields (catalog.expand origin code) text)
    (hbase : catalog.base? (String.ofList token.target) = some base) :
    tokenText catalog token =
      (bindInstance (String.ofList (splice (tokenText catalog) base.toList))
        (String.ofList token.variableName)).toList := by
  have hbelow : ∃ imported, Yields (catalog.expand (String.ofList token.target) base) imported ∧
      tokenText catalog token =
        (bindInstance imported (String.ofList token.variableName)).toList := by
    cases hcarries with
    | own htoken =>
        exact exists_yields_expand_of_base h htoken hbase
    | reached hpath hfound htoken =>
        obtain ⟨_, hcode⟩ := hpath.exists_yields_expand h hfound
        exact exists_yields_expand_of_base hcode htoken hbase
  obtain ⟨imported, himported, htext⟩ := hbelow
  rw [htext, (yields_expand_iff.1 himported).2]

end Expand

/-! ## The law of tokens that name nothing -/

/-- Where code is expanded to a text, what was noted stays, and of the notes about tokens that name
nothing those are added that were not there.  Each is there once then, after any later expansion of
whatever code too, and it tells the token and the node that the token belongs to.

The text is the code with a text for each token.  For a token that names nothing that is code that
throws the message of its note, and for every other token the setup code that it names, with a text
for each token there. -/
theorem gives_expand_dangling
    {catalog : Catalog} {origin code text : String} {before after : Diagnostics}
    (h : Gives (catalog.expand origin code) before text after) :
    (∃ added, after = before ++ added ∧ added.Nodup ∧
        (∀ note, note ∈ added ↔ note ∉ before ∧ ∃ owner token,
          catalog.Dangles origin code owner token ∧ note = importNote owner token) ∧
        ∀ origin' code' text' later, Gives (catalog.expand origin' code') after text' later →
          ∀ note ∈ added, later.count note = 1) ∧
      (∀ owner token owner' token',
        catalog.Dangles origin code owner token → catalog.Dangles origin code owner' token' →
          importNote owner token = importNote owner' token' → owner = owner' ∧ token = token') ∧
      ∃ textOf : ImportToken → List Char,
        text = String.ofList (splice textOf code.toList) ∧
        (∀ owner token, catalog.Dangles origin code owner token →
          textOf token = (Script.throwing (importNote owner token).message).toList) ∧
        ∀ owner token base, catalog.Carries origin code owner token →
          catalog.base? (String.ofList token.target) = some base →
            textOf token =
              (bindInstance (String.ofList (splice textOf base.toList))
                (String.ofList token.variableName)).toList := by
  obtain ⟨added, hafter, hnodup, hadded⟩ := exists_notes_of_gives_expand h
  refine ⟨⟨added, hafter, hnodup, hadded, ?_⟩, ?_, tokenText catalog, ?_, ?_, ?_⟩
  · intro origin' code' text' later hlater note hnote
    obtain ⟨more, hmore, -, hnew⟩ := exists_notes_of_gives_expand hlater
    have hbefore : before.count note = 0 :=
      List.count_eq_zero_of_not_mem ((hadded note).1 hnote).1
    have hthere : note ∈ after := hafter ▸ List.mem_append_right _ hnote
    have hafterwards : more.count note = 0 :=
      List.count_eq_zero_of_not_mem fun hmem => ((hnew note).1 hmem).1 hthere
    rw [hmore, hafter, List.count_append, List.count_append, hbefore, hafterwards,
      List.count_eq_one_of_mem hnodup hnote]
  · intro owner token owner' token' hfirst hsecond heq
    exact importNote_inj hfirst.carries.isValid hsecond.carries.isValid heq
  · exact (yields_expand_iff.1 h.yields).2
  · intro owner token hdangles
    exact tokenText_of_base?_eq_none hdangles.base?_eq_none
  · intro owner token base hcarries hbase
    exact hcarries.tokenText_eq h.yields hbase

/-- Code that imports a node twice, and once a node that is not there. -/
def twoDoors : String := "<%api.B:one%> <%api.C:two%> <%api.B:three%>"

/-- Notes about the node that is not there, which the imported node and the code both name. -/
def doorNotes : List Diagnostic :=
  [importNote "api.B" ⟨"api.C".toList, "door".toList⟩,
    importNote "api.Z" ⟨"api.C".toList, "two".toList⟩]

/-- Each token of a node that is not there has become a statement that throws the message of its
note, in the code itself and in each copy of the imported node. -/
def doorsText : String :=
  "var one = 1;\nthrow \"Test is malformed: <%api.C:door%> is an invalid import reference\";\n" ++
    "if (!one) \x7b\n  return \x7bresult: false, message: \"one is falsy\"\x7d;\n\x7d " ++
    "throw \"Test is malformed: <%api.C:two%> is an invalid import reference\"; var three = 1;\n" ++
    "throw \"Test is malformed: <%api.C:door%> is an invalid import reference\";\n" ++
    "if (!three) \x7b\n  return \x7bresult: false, message: \"three is falsy\"\x7d;\n\x7d"

/-- After nothing, the notes of the two doors are those about tokens that name nothing. -/
theorem gives_expand_twoDoors :
    Gives (relay.expand "api.Z" twoDoors) [] doorsText doorNotes ∧
      ∀ note, note ∈ doorNotes ↔ ∃ owner token,
        relay.Dangles "api.Z" twoDoors owner token ∧ note = importNote owner token := by
  have hresult : Reporting.result? (relay.expand "api.Z" twoDoors) = some doorsText := by
    decide +kernel
  have hnotes : ((relay.expand "api.Z" twoDoors).outcome []).2 = doorNotes := by
    decide +kernel
  obtain ⟨after, hgives⟩ := Reporting.exists_gives_of_result? hresult
  obtain rfl : after = doorNotes := by
    rw [← hnotes, hgives]
  obtain ⟨⟨added, hadded, -, hmem, -⟩, -⟩ := gives_expand_dangling hgives
  rw [List.nil_append] at hadded
  rw [← hadded] at hmem
  refine ⟨hgives, fun note => (hmem note).trans (and_iff_right ?_)⟩
  exact List.not_mem_nil

end Catalog
end FeatureProbes
