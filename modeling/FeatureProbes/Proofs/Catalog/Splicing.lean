import FeatureProbes.Proofs.Catalog.Expansion
import FeatureProbes.Proofs.Text.Affix

/-!
# What imports are replaced by

A token ends where it says so, and it begins with a character that no token has further inside.  So
the tokens of code are told apart without looking at what stands around them, and code may be cut
anywhere but inside a token.

Expanding puts one text in the place of each token and leaves all other text as it is.  The text
depends on the catalog and the token alone: neither the code around the token, nor the node that the
code belongs to, nor the nodes that are being expanded, nor what was noted before has an influence.
It is put into the result as it is, so tokens that it happens to contain stay.
-/

namespace FeatureProbes
namespace Catalog

open Reporting (Gives Fails Orderly Yields)

/-! ## Tokens in code -/

/-- What stands for a token: a path and a variable name. -/
structure ImportToken.IsValid (token : ImportToken) : Prop where
  target_ne_nil : token.target ≠ []
  target : ∀ c ∈ token.target, isPathChar c = true
  variableStart : ∃ c ∈ token.variableName.head?, isVariableStart c = true
  variablePart : ∀ c ∈ token.variableName, isVariablePart c = true

section Tokens

variable {text first rest : List Char} {token : ImportToken}

/-- A token is found where its spelling stands, whatever follows. -/
theorem tokenAt?_spelling_append
    (h : token.IsValid)
    (rest : List Char) :
    tokenAt? (token.spelling ++ rest) = some token := by
  obtain ⟨target, name⟩ := token
  obtain ⟨hne, htarget, ⟨c, hc, hstart⟩, hname⟩ := h
  have htargetSpan := Text.span_of_stop (':' :: (name ++ '%' :: '>' :: rest)) htarget
    (by simp; decide)
  have hnameSpan := Text.span_of_stop ('%' :: '>' :: rest) hname (by simp; decide)
  have htext : ImportToken.spelling ⟨target, name⟩ ++ rest =
      '<' :: '%' :: (target ++ ':' :: (name ++ '%' :: '>' :: rest)) := by
    simp [ImportToken.spelling]
  obtain ⟨d, target, rfl⟩ := List.exists_cons_of_ne_nil hne
  cases name with
  | nil =>
      cases hc
  | cons e name =>
      cases hc
      rw [htext, tokenAt?]
      simp only [htargetSpan, hnameSpan, hstart, if_true]

/-- A token is found only where its spelling stands. -/
theorem exists_eq_spelling_append
    (h : tokenAt? text = some token) :
    token.IsValid ∧ ∃ rest, text = token.spelling ++ rest := by
  unfold tokenAt? at h
  dsimp only at h
  split at h
  · rename_i rest
    split at h
    · rename_i d target behind htarget hbehind
      split at h
      · rename_i e name rest' hname hrest
        split at h
        · rename_i hstart
          cases h
          have htext : rest = rest.takeWhile isPathChar ++ rest.dropWhile isPathChar :=
            List.takeWhile_append_dropWhile.symm
          have hbehindText :
              behind = behind.takeWhile isVariablePart ++ behind.dropWhile isVariablePart :=
            List.takeWhile_append_dropWhile.symm
          have hvalid : ImportToken.IsValid
              ⟨rest.takeWhile isPathChar, behind.takeWhile isVariablePart⟩ := by
            refine ⟨?_, List.all_eq_true.1 List.all_takeWhile, ⟨e, ?_, hstart⟩,
              List.all_eq_true.1 List.all_takeWhile⟩
            · simp [htarget]
            · simp [hname]
          refine ⟨hvalid, rest', ?_⟩
          rw [hbehind] at htext
          rw [hrest] at hbehindText
          calc '<' :: '%' :: rest
              _ = '<' :: '%' :: (rest.takeWhile isPathChar ++
                    ':' :: (behind.takeWhile isVariablePart ++ '%' :: '>' :: rest')) := by
                rw [← hbehindText, ← htext]
              _ = ImportToken.spelling
                    ⟨rest.takeWhile isPathChar, behind.takeWhile isVariablePart⟩ ++ rest' := by
                simp [ImportToken.spelling]
        · cases h
      · cases h
    · cases h
  · cases h

theorem spelling_ne_nil
    (token : ImportToken) :
    token.spelling ≠ [] :=
  List.cons_ne_nil _ _

theorem piecesAfter_eq_drop
    (skipped : Nat)
    (text : List Char) :
    piecesAfter skipped text = piecesAfter 0 (text.drop skipped) := by
  induction skipped generalizing text with
  | zero =>
      rfl
  | succ skipped ih =>
      cases text with
      | nil =>
          rfl
      | cons c text =>
          exact ih text

/-- A token at the beginning of a text is its first piece. -/
theorem piecesAfter_spelling_append
    (h : token.IsValid)
    (rest : List Char) :
    piecesAfter 0 (token.spelling ++ rest) = .token token :: piecesAfter 0 rest := by
  have hfound := tokenAt?_spelling_append h rest
  obtain ⟨c, spelling, hspelling⟩ := List.exists_cons_of_ne_nil (spelling_ne_nil token)
  rw [hspelling, List.cons_append] at hfound ⊢
  rw [piecesAfter, hfound]
  dsimp only
  rw [hspelling, piecesAfter_eq_drop, List.length_cons, Nat.add_sub_cancel, List.drop_left]

theorem piecesAfter_cons_of_none
    {c : Char}
    (h : tokenAt? (c :: text) = none) :
    piecesAfter 0 (c :: text) = .char c :: piecesAfter 0 text := by
  rw [piecesAfter, h]

/-- A text is empty, or it begins with a token, or with a character that begins no token. -/
@[elab_as_elim]
theorem induction_of_tokens
    {motive : List Char → Prop}
    (nil : motive [])
    (token : ∀ (token : ImportToken) (rest : List Char),
      token.IsValid → motive rest → motive (token.spelling ++ rest))
    (char : ∀ (c : Char) (rest : List Char),
      tokenAt? (c :: rest) = none → motive rest → motive (c :: rest))
    (text : List Char) :
    motive text := by
  -- By the length of the text, because a token is skipped as a whole.
  induction hlength : text.length using Nat.strongRecOn generalizing text with
  | ind length ih =>
      subst hlength
      cases text with
      | nil =>
          exact nil
      | cons c rest =>
          cases hfound : tokenAt? (c :: rest) with
          | none =>
              exact char c rest hfound (ih rest.length (Nat.lt_succ_self _) rest rfl)
          | some found =>
              obtain ⟨hvalid, behind, hbehind⟩ := exists_eq_spelling_append hfound
              rw [hbehind] at ih ⊢
              refine token found behind hvalid (ih behind.length ?_ behind rfl)
              have hne := List.length_pos_of_ne_nil (spelling_ne_nil found)
              rw [List.length_append]
              omega

/-- A token that begins in one text and ends in the other. -/
def Straddles
    (token : ImportToken)
    (first rest : List Char) : Prop :=
  ∃ left right, token.spelling = left ++ right ∧ left ≠ [] ∧ right ≠ [] ∧
    left <:+ first ∧ right <+: rest

theorem Straddles.of_suffix
    {later : List Char}
    (h : Straddles token later rest)
    (hlater : later <:+ first) :
    Straddles token first rest := by
  obtain ⟨left, right, hspelling, hleft, hright, hsuffix, hprefix⟩ := h
  exact ⟨left, right, hspelling, hleft, hright, hsuffix.trans hlater, hprefix⟩

/-- Where no token lies across the cut, the pieces of both texts are the pieces of the whole. -/
theorem piecesAfter_append
    (h : ∀ token : ImportToken, token.IsValid → ¬Straddles token first rest) :
    piecesAfter 0 (first ++ rest) = piecesAfter 0 first ++ piecesAfter 0 rest := by
  induction first using induction_of_tokens with
  | nil =>
      rfl
  | token token behind hvalid ih =>
      have hbehind := ih fun other hother hacross =>
        h other hother (hacross.of_suffix (List.suffix_append _ _))
      rw [List.append_assoc, piecesAfter_spelling_append hvalid, piecesAfter_spelling_append hvalid,
        hbehind, List.cons_append]
  | char c behind hnone ih =>
      have hbehind := ih fun other hother hacross =>
        h other hother (hacross.of_suffix (List.suffix_cons _ _))
      have hwhole : tokenAt? (c :: (behind ++ rest)) = none := by
        -- A token there would end in the first text, which has none there, or lie across the cut.
        refine Option.eq_none_iff_forall_ne_some.2 fun token htoken => ?_
        obtain ⟨hvalid, last, hlast⟩ := exists_eq_spelling_append htoken
        rw [← List.cons_append] at hlast
        rcases List.append_eq_append_iff.1 hlast with
          ⟨middle, hspelling, hrest⟩ | ⟨middle, hfirst, -⟩
        · by_cases hmiddle : middle = []
          · rw [hmiddle, List.append_nil] at hspelling
            rw [← hspelling, ← token.spelling.append_nil, tokenAt?_spelling_append hvalid] at hnone
            cases hnone
          · exact h token hvalid
              ⟨c :: behind, middle, hspelling, List.cons_ne_nil _ _, hmiddle,
                List.suffix_refl _, hrest ▸ List.prefix_append _ _⟩
        · rw [hfirst, tokenAt?_spelling_append hvalid] at hnone
          cases hnone
      rw [List.cons_append, piecesAfter_cons_of_none hwhole, piecesAfter_cons_of_none hnone,
        hbehind, List.cons_append]

/-- The tokens among the pieces of a text stand in it. -/
theorem isInfix_of_mem_piecesAfter
    (h : Piece.token token ∈ piecesAfter 0 text) :
    token.IsValid ∧ token.spelling <:+: text := by
  induction text using induction_of_tokens with
  | nil =>
      cases h
  | token found rest hvalid ih =>
      rw [piecesAfter_spelling_append hvalid] at h
      rcases List.mem_cons.1 h with heq | h
      · cases heq
        exact ⟨hvalid, (List.prefix_append _ _).isInfix⟩
      · exact ⟨(ih h).1, (ih h).2.trans (List.suffix_append _ _).isInfix⟩
  | char c rest hnone ih =>
      rw [piecesAfter_cons_of_none hnone] at h
      rcases List.mem_cons.1 h with heq | h
      · cases heq
      · exact ⟨(ih h).1, (ih h).2.trans (List.suffix_cons _ _).isInfix⟩

/-- The character that a token begins with is not found further inside. -/
theorem opening_not_mem_tail
    (h : token.IsValid) :
    '<' ∉ token.spelling.tail := by
  have htarget : '<' ∉ token.target := fun hmem => absurd (h.target _ hmem) (by decide)
  have hname : '<' ∉ token.variableName := fun hmem => absurd (h.variablePart _ hmem) (by decide)
  simp [ImportToken.spelling, htarget, hname]

/-- A token lies across no cut in front of another one. -/
theorem not_straddles_spelling_append
    (h : token.IsValid)
    (other : ImportToken)
    (rest : List Char) :
    ¬Straddles token first (other.spelling ++ rest) := by
  rintro ⟨left, right, hspelling, hleft, hright, -, hright'⟩
  obtain ⟨d, left, rfl⟩ := List.exists_cons_of_ne_nil hleft
  obtain ⟨c, right, rfl⟩ := List.exists_cons_of_ne_nil hright
  obtain ⟨behind, hbehind⟩ := hright'
  obtain rfl : c = '<' := (List.cons.inj hbehind).1
  refine opening_not_mem_tail h ?_
  rw [hspelling]
  simp

end Tokens

/-! ## Putting texts for tokens -/

/-- A character, or the text that is put for a token. -/
def Piece.put
    (textOf : ImportToken → List Char) :
    Piece → List Char
  | .char c => [c]
  | .token found => textOf found

/-- A text with other texts in the places of its tokens. -/
def splice
    (textOf : ImportToken → List Char)
    (text : List Char) :
    List Char :=
  (piecesAfter 0 text).flatMap (Piece.put textOf)

section Splice

variable {textOf : ImportToken → List Char} {first rest : List Char} {token : ImportToken}

theorem splice_append
    (h : ∀ token : ImportToken, token.IsValid → ¬Straddles token first rest) :
    splice textOf (first ++ rest) = splice textOf first ++ splice textOf rest := by
  rw [splice, piecesAfter_append h, List.flatMap_append]
  rfl

/-- Every token is replaced, and nothing around it. -/
theorem splice_token
    (h : token.IsValid)
    (first rest : List Char) :
    splice textOf (first ++ token.spelling ++ rest) =
      splice textOf first ++ textOf token ++ splice textOf rest := by
  have hcut : ∀ other : ImportToken, other.IsValid →
      ¬Straddles other first (token.spelling ++ rest) :=
    fun other hother => not_straddles_spelling_append hother _ _
  have htoken : splice textOf (token.spelling ++ rest) = textOf token ++ splice textOf rest := by
    rw [splice, piecesAfter_spelling_append h]
    rfl
  rw [List.append_assoc, splice_append hcut, htoken, List.append_assoc]

/-- A text without tokens stays. -/
theorem splice_of_no_token
    {text : List Char}
    (h : ∀ token : ImportToken, token.IsValid → ¬token.spelling <:+: text) :
    splice textOf text = text := by
  have hpieces : piecesAfter 0 text = text.map Piece.char := by
    refine piecesAfter_zero_of_no_token fun token htoken => ?_
    obtain ⟨hvalid, hinside⟩ := isInfix_of_mem_piecesAfter htoken
    exact h token hvalid hinside
  rw [splice, hpieces, List.flatMap_map]
  exact List.flatMap_singleton' text

end Splice

/-! ## What tokens are expanded to -/

section Expand

variable {catalog : Catalog} {depth depth' : Nat} {chain chain' : List String} {code text : String}
  {token : ImportToken} {part : List Char}

/-- A token is expanded to code that throws, or to the expanded setup code of its node. -/
theorem yields_expandPiece_token_iff :
    Yields (expandPiece catalog depth chain (.token token)) part ↔
      String.ofList token.target ∉ chain ∧
        ((catalog.base? (String.ofList token.target) = none ∧
            part = (Script.throwing (invalidImportMessage token)).toList) ∨
          ∃ base imported, catalog.base? (String.ofList token.target) = some base ∧
            Yields (expandWithin catalog depth (String.ofList token.target :: chain) base)
              imported ∧
            part = (bindInstance imported (String.ofList token.variableName)).toList) := by
  rw [← chain.reverse_reverse]
  generalize chain.reverse = visited
  by_cases hmem : String.ofList token.target ∈ visited
  · rw [expandPiece_of_mem hmem]
    refine iff_of_false ?_ fun h => h.1 (List.mem_reverse.2 hmem)
    rintro ⟨before, after, h⟩
    exact Reporting.not_gives_throw h
  · have hnew : String.ofList token.target ∉ visited.reverse := fun h => hmem (List.mem_reverse.1 h)
    cases hbase : catalog.base? (String.ofList token.target) with
    | none =>
        rw [expandPiece_of_no_base hmem hbase, Reporting.yields_map_iff]
        constructor
        · rintro ⟨-, -, hpart⟩
          exact ⟨hnew, Or.inl ⟨rfl, hpart.symm⟩⟩
        · rintro ⟨-, ⟨-, hpart⟩ | ⟨base, imported, hsome, -⟩⟩
          · exact ⟨(), ⟨[], _, Reporting.gives_report_iff.2 rfl⟩, hpart.symm⟩
          · cases hsome
    | some base =>
        rw [expandPiece_of_base hmem hbase, Reporting.yields_map_iff, List.reverse_append]
        constructor
        · rintro ⟨imported, himported, hpart⟩
          exact ⟨hnew, Or.inr ⟨base, imported, rfl, himported, hpart.symm⟩⟩
        · rintro ⟨-, ⟨hnone, -⟩ | ⟨found, imported, hsame, himported, hpart⟩⟩
          · cases hnone
          · cases hsame
            exact ⟨imported, himported, hpart.symm⟩

theorem yields_expandWithin_iff :
    Yields (expandWithin catalog (depth + 1) chain code) text ↔
      ∃ parts,
        List.Forall₂ (fun piece part => Yields (expandPiece catalog depth chain piece) part)
            (pieces code) parts ∧
          String.ofList parts.flatten = text := by
  rw [expandWithin_succ, Reporting.yields_map_iff]
  constructor
  · rintro ⟨parts, ⟨before, after, hparts⟩, rfl⟩
    exact ⟨parts, hparts.forall₂_of_mapM, rfl⟩
  · rintro ⟨parts, hparts, rfl⟩
    exact ⟨parts, Orderly.yields_mapM (orderly_expandPiece orderly_expandWithin chain) hparts, rfl⟩

/-- What is expanded stays the same with more depth and inside of fewer nodes. -/
theorem yields_expandWithin_mono
    (h : Yields (expandWithin catalog depth chain code) text)
    (hdepth : depth ≤ depth')
    (hchain : chain' ⊆ chain) :
    Yields (expandWithin catalog depth' chain' code) text := by
  -- The setup code of a token is expanded with less depth inside of one more node.
  induction depth generalizing depth' chain chain' code text with
  | zero =>
      obtain ⟨before, after, h⟩ := h
      exact absurd h Reporting.not_gives_throw
  | succ depth ih =>
      obtain ⟨depth', rfl⟩ : ∃ room, depth' = room + 1 := ⟨depth' - 1, by omega⟩
      obtain ⟨parts, hparts, rfl⟩ := yields_expandWithin_iff.1 h
      refine yields_expandWithin_iff.2 ⟨parts, hparts.imp fun piece part hpart => ?_, rfl⟩
      cases piece with
      | char c =>
          exact hpart
      | token token =>
          obtain ⟨hnew, hpart⟩ := yields_expandPiece_token_iff.1 hpart
          refine yields_expandPiece_token_iff.2 ⟨fun hmem => hnew (hchain hmem), ?_⟩
          refine hpart.imp_right ?_
          rintro ⟨base, imported, hbase, himported, rfl⟩
          exact ⟨base, imported, hbase,
            ih himported (by omega) (List.cons_subset_cons _ hchain), rfl⟩

variable (catalog) in
/-- What is put for a token.  The code of its node is expanded on its own. -/
def tokenText (token : ImportToken) : List Char :=
  match catalog.base? (String.ofList token.target) with
  | none => (Script.throwing (invalidImportMessage token)).toList
  | some base =>
      let imported := (Reporting.result? (expandWithin catalog catalog.root.size [] base)).getD ""
      (bindInstance imported (String.ofList token.variableName)).toList

/-- Wherever a token is expanded, it is expanded to its text. -/
theorem eq_tokenText
    (h : Yields (expandPiece catalog catalog.root.size chain (.token token)) part) :
    part = tokenText catalog token := by
  obtain ⟨-, hpart⟩ := yields_expandPiece_token_iff.1 h
  rcases hpart with ⟨hbase, hpart⟩ | ⟨base, imported, hbase, himported, hpart⟩
  · rw [hpart, tokenText, hbase]
  · have halone := yields_expandWithin_mono himported (Nat.le_refl _) (List.nil_subset _)
    have hresult := (orderly_expandWithin [] base).result?_of_yields halone
    rw [hpart, tokenText, hbase]
    simp only [hresult, Option.getD_some]

/-- Code is expanded if each of its pieces is, and it is expanded to itself with the texts of its
tokens in their places. -/
theorem yields_expand_iff
    {origin : String} :
    Yields (catalog.expand origin code) text ↔
      (∀ piece ∈ pieces code,
          Yields (expandPiece catalog catalog.root.size [origin] piece)
            (piece.put (tokenText catalog))) ∧
        text = String.ofList (splice (tokenText catalog) code.toList) := by
  have hpiece : ∀ piece part,
      Yields (expandPiece catalog catalog.root.size [origin] piece) part →
        part = piece.put (tokenText catalog) := by
    intro piece part hpart
    cases piece with
    | char c =>
        obtain ⟨before, after, hpart⟩ := hpart
        exact (Reporting.gives_pure_iff.1 hpart).1.symm
    | token token =>
        exact eq_tokenText hpart
  have hsplice : splice (tokenText catalog) code.toList =
      ((pieces code).map (Piece.put (tokenText catalog))).flatten :=
    List.flatMap_def
  rw [expand, yields_expandWithin_iff, hsplice]
  constructor
  · rintro ⟨parts, hparts, rfl⟩
    have hall : parts = (pieces code).map (Piece.put (tokenText catalog)) := by
      rw [← List.forall₂_eq_eq_eq, List.forall₂_map_right_iff]
      exact hparts.flip.imp fun part piece hpart => hpiece piece part hpart
    rw [hall, List.forall₂_map_right_iff, List.forall₂_same] at hparts
    exact ⟨hparts, by rw [hall]⟩
  · rintro ⟨hparts, rfl⟩
    refine ⟨_, ?_, rfl⟩
    rw [List.forall₂_map_right_iff, List.forall₂_same]
    exact hparts

/-- Code is expanded to a text, whatever was noted before. -/
def ExpandsTo (catalog : Catalog) (origin code text : String) : Prop :=
  ∀ before, ∃ after, Gives (catalog.expand origin code) before text after

theorem expandsTo_iff_yields
    {origin : String} :
    catalog.ExpandsTo origin code text ↔ Yields (catalog.expand origin code) text := by
  constructor
  · intro h
    obtain ⟨after, hafter⟩ := h []
    exact hafter.yields
  · exact (orderly_expandWithin [origin] code).gives_of_yields

theorem expandsTo_or_fails
    (catalog : Catalog)
    (origin code : String) :
    (∃ text, catalog.ExpandsTo origin code text) ∨
      ∀ before, ∃ error after, Fails (catalog.expand origin code) before error after := by
  by_cases h : ∃ text, Yields (catalog.expand origin code) text
  · obtain ⟨text, htext⟩ := h
    exact Or.inl ⟨text, expandsTo_iff_yields.2 htext⟩
  · refine Or.inr fun before => ?_
    rcases Reporting.gives_or_fails (catalog.expand origin code) before with
      ⟨text, after, hgives⟩ | hfails
    · exact absurd ⟨text, hgives.yields⟩ h
    · exact hfails

theorem expandsTo_append_iff
    {origin first rest : String}
    (h : ∀ token : ImportToken, token.IsValid → ¬Straddles token first.toList rest.toList) :
    catalog.ExpandsTo origin (first ++ rest) text ↔
      ∃ text₁ text₂, catalog.ExpandsTo origin first text₁ ∧ catalog.ExpandsTo origin rest text₂ ∧
        text = text₁ ++ text₂ := by
  have hpieces : pieces (first ++ rest) = pieces first ++ pieces rest := by
    rw [pieces, String.toList_append, piecesAfter_append h]
    rfl
  simp only [expandsTo_iff_yields, yields_expand_iff, hpieces, String.toList_append,
    splice_append h, String.ofList_append, List.forall_mem_append]
  constructor
  · rintro ⟨⟨hfirst, hrest⟩, rfl⟩
    exact ⟨_, _, ⟨hfirst, rfl⟩, ⟨hrest, rfl⟩, rfl⟩
  · rintro ⟨_, _, ⟨hfirst, rfl⟩, ⟨hrest, rfl⟩, rfl⟩
    exact ⟨⟨hfirst, hrest⟩, rfl⟩

/-- Code without tokens is expanded to itself. -/
theorem expandsTo_of_no_token
    {origin : String}
    (h : ∀ token : ImportToken, token.IsValid → ¬token.spelling <:+: code.toList) :
    catalog.ExpandsTo origin code code := by
  have htargets : importTargets code = [] := by
    refine List.eq_nil_iff_forall_not_mem.2 fun target htarget => ?_
    obtain ⟨token, htoken, -⟩ := mem_importTargets_iff.1 htarget
    obtain ⟨hvalid, hinside⟩ := isInfix_of_mem_piecesAfter htoken
    exact h token hvalid hinside
  intro before
  exact ⟨before, by rw [expand_of_no_import origin htargets]; rfl⟩

end Expand

/-! ## Expanding and what stands around -/

/-- Each token has one text in a catalog, and expanding puts these texts in the places of the tokens
of code.  Whether code is expanded does not depend on what was noted, and what it is expanded to
does not depend on the node either that it belongs to.  Where no token lies across a cut, code is
expanded if the parts on both sides are, to what they are expanded to one after the other. -/
theorem expandsTo_spliced
    (catalog : Catalog) :
    ∃ textOf : ImportToken → List Char,
      (∀ origin code,
        (∃ text, catalog.ExpandsTo origin code text) ∨
          ∀ before, ∃ error after, Fails (catalog.expand origin code) before error after) ∧
      (∀ origin code text, catalog.ExpandsTo origin code text →
        text = String.ofList (splice textOf code.toList)) ∧
      (∀ origin origin' code text text',
        catalog.ExpandsTo origin code text → catalog.ExpandsTo origin' code text' →
          text = text') ∧
      (∀ origin first rest text,
        (∀ token : ImportToken, token.IsValid → ¬Straddles token first.toList rest.toList) →
          (catalog.ExpandsTo origin (first ++ rest) text ↔
            ∃ text₁ text₂, catalog.ExpandsTo origin first text₁ ∧
              catalog.ExpandsTo origin rest text₂ ∧ text = text₁ ++ text₂)) ∧
      (∀ origin code,
        (∀ token : ImportToken, token.IsValid → ¬token.spelling <:+: code.toList) →
          catalog.ExpandsTo origin code code) ∧
      (∀ (token : ImportToken) first rest, token.IsValid →
        splice textOf (first ++ token.spelling ++ rest) =
          splice textOf first ++ textOf token ++ splice textOf rest) ∧
      ∀ text, (∀ token : ImportToken, token.IsValid → ¬token.spelling <:+: text) →
        splice textOf text = text := by
  have hsplice : ∀ origin code text, catalog.ExpandsTo origin code text →
      text = String.ofList (splice (tokenText catalog) code.toList) :=
    fun origin code text h => (yields_expand_iff.1 (expandsTo_iff_yields.1 h)).2
  refine ⟨tokenText catalog, expandsTo_or_fails catalog, hsplice, ?_, ?_, ?_, ?_, ?_⟩
  · intro origin origin' code text text' htext htext'
    rw [hsplice origin code text htext, hsplice origin' code text' htext']
  · intro origin first rest text hcut
    exact expandsTo_append_iff hcut
  · intro origin code hnone
    exact expandsTo_of_no_token hnone
  · intro token first rest hvalid
    exact splice_token hvalid first rest
  · intro text hnone
    exact splice_of_no_token hnone

/-- A catalog with setup code that imports a node without setup code. -/
def relay : Catalog where
  root :=
    { Node.empty with
      children :=
        [("api",
          { Node.empty with
            children :=
              [("B", { Node.empty with base := some "var instance = 1;\n<%api.C:door%>" })] })] }
  resources := .empty

/-- The note about the import that is not there is put in twice, and its own token stays. -/
def relayed : String :=
  "var one = 1;\nthrow \"Test is malformed: <%api.C:door%> is an invalid import reference\";\n" ++
    "if (!one) \x7b\n  return \x7bresult: false, message: \"one is falsy\"\x7d;\n\x7d two(" ++
    "var three = 1;\nthrow \"Test is malformed: <%api.C:door%> is an invalid import reference\";\n" ++
    "if (!three) \x7b\n  return \x7bresult: false, message: \"three is falsy\"\x7d;\n\x7d)"

/-- The code of two nodes is expanded to the same text, which is put together from the texts on both
sides of a cut. -/
theorem expandsTo_relayed :
    (∀ text, relay.ExpandsTo "api.Z" "<%api.B:one%> two(<%api.B:three%>)" text → text = relayed) ∧
      relay.ExpandsTo "api.A" "first();" "first();" ∧
        ∃ text₁ text₂, relay.ExpandsTo "api.A" "<%api.B:one%> two(" text₁ ∧
          relay.ExpandsTo "api.A" "<%api.B:three%>)" text₂ ∧ relayed = text₁ ++ text₂ := by
  have hresult : Reporting.result? (relay.expand "api.A" "<%api.B:one%> two(<%api.B:three%>)") =
      some relayed := by
    decide +kernel
  obtain ⟨after, hgives⟩ := Reporting.exists_gives_of_result? hresult
  have hwhole := expandsTo_iff_yields.2 hgives.yields
  obtain ⟨textOf, -, -, hsame, hcut, hplain, -, -⟩ := expandsTo_spliced relay
  refine ⟨fun text htext => hsame _ _ _ _ _ htext hwhole, hplain _ _ ?_, ?_⟩
  · intro token _ hinside
    exact absurd (hinside.subset List.mem_cons_self) (by decide)
  · refine (hcut "api.A" "<%api.B:one%> two(" "<%api.B:three%>)" relayed ?_).1 hwhole
    intro token hvalid
    exact not_straddles_spelling_append hvalid ⟨"api.B".toList, "three".toList⟩ [')']

end Catalog
end FeatureProbes
