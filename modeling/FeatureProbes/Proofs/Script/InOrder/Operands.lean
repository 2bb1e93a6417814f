import FeatureProbes.Proofs.Script.InOrder.Functions
import FeatureProbes.Script.Expression

/-!
# Operands read identifiers in order

Literals, names, everything in brackets, calls and member accesses, and signs.  A slash that opens a
regular expression, a brace that goes on with a template and an angle bracket that begins a longer
operator are read again, from the same place on.
-/

namespace FeatureProbes
namespace Script
namespace Rule

variable {rules : Rules}

/-! ### Tokens that are read again -/

section ReadAgain

variable {text : List Char} {s t : State} {lexeme : Lexeme}

/-- A punctuator that is read again stands where it stood. -/
theorem moves_replaceToken
    (hkind : s.token.kind = .punctuator)
    (hfits : lexeme.Fits (s.token.text.toList ++ s.rest))
    (h : replaceToken lexeme s = .ok ((), t)) :
    s.Moves text t := by
  cases h
  intro hclean
  obtain ⟨hlexical, hfaults⟩ := List.append_eq_nil_iff.1 hclean.lexical
  refine ⟨⟨hlexical, hclean.grammatical⟩, fun ⟨front, spelling, hstands⟩ => ?_⟩
  obtain rfl := hstands.punctuator hkind
  refine ⟨⟨front, lexeme.spelling, ?_, hstands.start_eq, ?_,
    fun hword => hfits.word hword hfaults, hfits.punctuator⟩, Nat.le_refl _⟩
  · rw [hfits.takes]
    exact hstands.text_eq
  · exact congrArg (· + lexeme.spelling.length) hstands.start_eq

theorem text_eq_of_isPunctuator
    {token : Token} {mark : String}
    (h : token.isPunctuator mark = true) :
    token.kind = .punctuator ∧ token.text = mark := by
  simpa [Token.isPunctuator] using h

theorem quiet_resumeTemplate : Quiet resumeTemplate := by
  refine quiet_of_moves fun text s _ t h => ?_
  unfold resumeTemplate at h
  simp only [bind_apply, at?_apply] at h
  split at h
  · rename_i hbrace
    simp only [bind_apply, get_apply] at h
    obtain ⟨hkind, htext⟩ := text_eq_of_isPunctuator hbrace
    refine moves_replaceToken hkind ?_ h
    rw [htext]
    exact fits_readTemplate false '\x7d' s.rest
  · cases h
    exact .refl text s

theorem quiet_joinRightAngles : Quiet joinRightAngles := by
  refine quiet_of_moves fun text s _ t h => ?_
  unfold joinRightAngles at h
  simp only [bind_apply, at?_apply] at h
  split at h
  · rename_i hangle
    simp only [bind_apply, get_apply] at h
    obtain ⟨hkind, htext⟩ := text_eq_of_isPunctuator hangle
    cases hmark : leading? rightAngles ('>' :: s.rest) with
    | none =>
        rw [hmark] at h
        cases h
        exact .refl text s
    | some mark =>
        rw [hmark] at h
        refine moves_replaceToken hkind ?_ h
        rw [htext]
        exact fits_plain_of_leading? hmark
  · cases h
    exact .refl text s

theorem readsFrom_regularExpression
    (hkind : s.token.kind = .punctuator) :
    ReadsFrom text s [] Tree.idents regularExpression := by
  refine (quiet_token [] text s).bind fun here t hhere => ?_
  cases hhere
  have hget : ReadsFrom text s [] (fun _ => []) (get : Rule State) :=
    .of_moves fun _ t h => by cases h; exact ⟨.refl text s, .refl []⟩
  refine hget.bind fun whole t hwhole => ?_
  cases hwhole
  have hread : ReadsFrom text s [] (fun _ => [])
      (replaceToken (readRegularExpression s.token.text.toList s.rest)) :=
    .of_moves fun _ _ h =>
      ⟨moves_replaceToken hkind (fits_readRegularExpression _ s.rest) h, .refl []⟩
  exact hread.bind fun _ t _ => reads_tokenLeaf text t

end ReadAgain

/-! ### Templates -/

theorem reads_templatePiece
    (isTagged : Bool) :
    Reads [] Tree.idents (templatePiece isTagged) := by
  refine quiet_token.bind fun here => ?_
  refine reads_optional _ (quiet_report _) fun _ => ?_
  exact quiet_step.bind fun _ => reads_pure (by simp)

theorem reads_substitutionRound
    (h : rules.InOrder)
    (ctx : Context)
    (isTagged : Bool)
    (read : List Tree) :
    Reads (Tree.identsOf read.reverse)
      (Sum.elim (fun read => Tree.identsOf read.reverse) Tree.identsOf)
      (substitutionRound rules ctx isTagged read) := by
  refine (h _ _).bind_append fun value => quiet_resumeTemplate.bind fun _ => ?_
  refine quiet_token.bind fun here => ?_
  split
  · refine (reads_templatePiece isTagged).bind_append fun piece => reads_pure ?_
    split <;> simp
  · exact quiet_token.bind fun _ => (stops_fail _).reads

theorem reads_template
    (h : rules.InOrder)
    (ctx : Context)
    (isTagged : Bool) :
    Reads [] Tree.idents (template rules ctx isTagged) := by
  refine quiet_token.bind fun here => (reads_templatePiece isTagged).bind fun piece => ?_
  split
  · exact reads_pure (by simp)
  · have hpieces : Reads piece.idents Tree.identsOf
        (untilDone (substitutionRound rules ctx isTagged) [piece]) := by
      simpa using reads_untilDone (reads_substitutionRound h ctx isTagged) [piece]
    exact hpieces.bind fun parts => reads_pure (by simp)

/-! ### Arrays and objects -/

theorem reads_spread
    (h : rules.InOrder)
    (ctx : Context) :
    Reads [] Tree.idents (spread rules ctx) :=
  quiet_advance.bind fun _ => (h _ _).bind fun value => reads_pure (by simp)

theorem reads_argument
    (h : rules.InOrder)
    (ctx : Context) :
    Reads [] Tree.idents (argument rules ctx) := by
  refine (quiet_at? "...").bind fun dots => ?_
  split
  · exact reads_spread h ctx
  · exact h _ _

theorem reads_arguments
    (h : rules.InOrder)
    (ctx : Context) :
    Reads [] Tree.identsOf (arguments rules ctx) := by
  refine (quiet_expect "(").bind fun _ => ?_
  refine (reads_listUntil ")" (reads_argument h ctx.bracketed)).bind fun list => ?_
  exact (quiet_expect ")").bind fun _ => reads_answer rfl

@[simp] theorem identsOf_trailingMark
    (trailing : Bool) :
    Tree.identsOf (trailingMark trailing) = [] := by
  cases trailing <;> simp [trailingMark]

theorem reads_arrayElement
    (h : rules.InOrder)
    (ctx : Context) :
    Reads [] Tree.idents (arrayElement rules ctx) := by
  refine (quiet_at? ",").bind fun comma => ?_
  split
  · exact reads_pure (by simp)
  · exact reads_argument h ctx

theorem reads_array
    (h : rules.InOrder)
    (ctx : Context) :
    Reads [] Tree.idents (array rules ctx) := by
  have hparts := reads_listUntil "]" (reads_arrayElement h { ctx with allowIn := true })
  refine quiet_advance.bind fun _ => hparts.bind fun list => ?_
  exact (quiet_expect "]").bind fun _ => reads_pure (by simp)

theorem quiet_noteDefault
    (start : Nat) :
    Quiet (modify fun s => { s with defaults := s.defaults ++ [start] } : Rule Unit) := by
  refine quiet_of_moves fun text s _ t h => ?_
  cases h
  exact .of_eq rfl rfl fun hclean => ⟨hclean.lexical, hclean.grammatical⟩

/-- A property whose name is also its value has the identifier that its name leaves room for. -/
theorem reads_shorthandProperty
    (h : rules.InOrder)
    (ctx : Context)
    (name : Token) :
    Reads [name.ident] Tree.idents (shorthandProperty rules ctx name) := by
  refine (quiet_checkIdentifier ctx name).bind fun _ => (quiet_eat "=").bind fun found => ?_
  split
  · refine (quiet_noteDefault _).bind fun _ => ?_
    exact (h _ _).bind_append fun value => reads_pure (by simp [Token.ident])
  · exact reads_pure (by simp [Token.ident])

/-- A getter or setter of an object, after its word. -/
theorem reads_accessor
    {check : Tree → Rule Unit}
    (h : rules.InOrder)
    (ctx : Context)
    (hcheck : ∀ method, Quiet (check method)) :
    Reads [] Tree.idents (do
      let key ← propertyName rules ctx
      let method ← methodRest rules ctx false false
      check method
      return .node .accessor [key, method]) := by
  refine (reads_propertyName h ctx).bind fun key => ?_
  refine (reads_methodRest h ctx false false).bind_append fun method => ?_
  exact (hcheck method).bind fun _ => reads_pure (by simp)

theorem reads_objectProperty
    (h : rules.InOrder)
    (ctx : Context) :
    Reads [] Tree.idents (objectProperty rules ctx) := by
  refine (quiet_at? "...").bind fun dots => ?_
  split
  · exact reads_spread h ctx
  refine (quiet_eatModifier "async" true).bind fun isAsync => ?_
  refine (quiet_eatModifier "get" false).bind fun getter => ?_
  split
  · exact reads_accessor h ctx quiet_checkGetter
  refine (quiet_eatModifier "set" false).bind fun setter => ?_
  split
  · exact reads_accessor h ctx quiet_checkSetter
  refine (quiet_eat "*").bind fun generator => ?_
  intro text s
  refine (quiet_token [] text s).bind fun here t hhere => ?_
  cases hhere
  extract_lets finish read
  have hfinish : ∀ key, Reads ([] ++ wordIdents s.token ++ key.idents) Tree.idents
      (finish key) := by
    refine fun key => (quiet_at? "(").bind fun opens => ?_
    split
    · refine (reads_methodRest h ctx isAsync generator).bind_append fun method => ?_
      exact reads_pure (by simp)
    refine (quiet_at? ":").bind fun colon => ?_
    split
    · rename_i hnamed
      have hword : wordIdents s.token = [s.token.ident] :=
        wordIdents_of_isIdentifier (Bool.and_eq_true_iff.1 hnamed).1
      rw [hword]
      exact (reads_shorthandProperty h ctx s.token).mono (by simp)
    · refine (quiet_expect ":").bind fun _ => (h _ _).bind_append fun value => ?_
      exact reads_pure (by simp)
  have hread : ∀ r t, t.token = s.token → ReadsFrom text t [] Tree.idents (read r) := by
    intro r t htoken
    rw [← htoken] at hfinish
    dsimp only [read]
    split
    · rename_i hprivate
      refine (readsFrom_tokenLeaf [] fun hword => ?_).bind fun key u _ => hfinish key text u
      simp [← htoken, hword] at hprivate
    · exact (readsFrom_propertyName h ctx []).bind fun key u _ => hfinish key text u
  split
  · refine (quiet_report _ [] text s).bind fun _ t hreport => hread () t ?_
    cases hreport
    rfl
  · exact hread () s rfl

theorem reads_object
    (h : rules.InOrder)
    (ctx : Context) :
    Reads [] Tree.idents (object rules ctx) := by
  have hparts := reads_listUntil "\x7d" (reads_objectProperty h { ctx with allowIn := true })
  refine quiet_advance.bind fun _ => hparts.bind fun list => ?_
  exact (quiet_expect "\x7d").bind fun _ => reads_pure (by simp)

/-! ### Primary expressions -/

theorem reads_parenthesized
    (h : rules.InOrder)
    (ctx : Context) :
    Reads [] Tree.idents (parenthesized rules ctx) := by
  have hparts := reads_listUntil ")" (h .assignment ctx.bracketed)
  refine quiet_advance.bind fun _ => hparts.bind fun list => ?_
  refine reads_optional _ (quiet_fail _) fun _ => (quiet_expect ")").bind fun _ => ?_
  split
  · exact (stops_fail _).reads
  · rename_i hlist
    exact reads_pure (by simp [hlist])
  · exact reads_pure (by simp)

theorem reads_importCall
    (h : rules.InOrder)
    (ctx : Context) :
    Reads [] Tree.idents (importCall rules ctx) := by
  refine (quiet_expect "(").bind fun _ => (quiet_eat ")").bind fun empty => ?_
  refine reads_optional _ (quiet_fail _) fun _ => (h _ _).bind fun specifier => ?_
  refine (quiet_eat ",").bind fun comma => (quiet_at? ")").bind fun closed => ?_
  extract_lets close
  have hclose : ∀ options, Reads (specifier.idents ++ Tree.identsOf options) Tree.idents
      (close options) := by
    refine fun options => (quiet_at? ",").bind fun comma => ?_
    refine reads_optional _ quiet_advance fun _ => (quiet_eat ")").bind fun closed => ?_
    exact reads_optional _ (quiet_fail _) fun _ => reads_pure (by simp)
  split
  · exact (h _ _).bind_append fun options => Reads.bind (reads_answer (by simp)) hclose
  · exact Reads.bind (reads_answer (by simp)) hclose

theorem reads_importExpression
    (h : rules.InOrder)
    (ctx : Context) :
    Reads [] Tree.idents (importExpression rules ctx) := by
  refine quiet_advance.bind fun _ => (quiet_eat ".").bind fun dot => ?_
  split
  · refine (quiet_eatWord "meta").bind fun found => ?_
    split
    · exact reads_pure (by simp)
    refine (quiet_eatWord "source").bind fun found => ?_
    split
    · exact reads_importCall h ctx
    refine (quiet_eatWord "defer").bind fun found => ?_
    split
    · exact reads_importCall h ctx
    · exact (stops_fail _).reads
  refine (quiet_at? "(").bind fun opens => ?_
  split
  · exact reads_importCall h ctx
  · exact stops_unexpected.reads

theorem reads_superWord : Reads [] Tree.idents superWord := by
  refine quiet_advance.bind fun _ => ?_
  refine (quiet_at? ".").bind fun dot => (quiet_at? "[").bind fun bracket => ?_
  refine (quiet_at? "(").bind fun parenthesis => ?_
  exact reads_optional _ (quiet_report _) fun _ => reads_pure (by simp)

theorem reads_decoratedClass
    (h : rules.InOrder)
    (ctx : Context)
    (required : Bool) :
    Reads [] Tree.idents (decoratedClass rules ctx required) := by
  refine (reads_decorators h ctx).bind fun decorated => (quiet_atWord? "class").bind fun found => ?_
  split
  · exact stops_unexpected.bind.reads
  refine (reads_classAny h ctx required).bind_append fun declared => reads_pure ?_
  rw [Tree.idents_node, Tree.identsOf_append]
  exact declared.identsOf_parts_sublist.append_left _

theorem quiet_optionalMemberAhead? : Quiet optionalMemberAhead? := by
  intro before
  refine (quiet_at? "?.").bind fun found => ?_
  split
  · exact quiet_ahead _ before
  · exact reads_answer rfl

theorem reads_accessedName : Reads [] Tree.idents accessedName := by
  refine quiet_token.bind fun here => ?_
  split
  · exact quiet_step.bind fun _ => reads_pure (by simp)
  · exact reads_wordLeaf

theorem reads_memberRound
    (h : rules.InOrder)
    (ctx : Context)
    (access : Access) :
    Reads access.tree.idents
      (Sum.elim (fun access => access.tree.idents) fun access => access.tree.idents)
      (memberRound rules ctx access) := by
  refine quiet_optionalMemberAhead?.bind fun optional => ?_
  refine reads_optional _ quiet_advance fun _ => quiet_token.bind fun here => ?_
  extract_lets go
  have hgo : ∀ dotted, Reads access.tree.idents
      (Sum.elim (fun access => access.tree.idents) fun access => access.tree.idents)
      (go dotted) := by
    intro dotted
    dsimp only [go]
    split
    · exact reads_accessedName.bind_append fun name => reads_pure (by simp)
    split
    · refine quiet_advance.bind fun _ => (h _ _).bind_append fun key => ?_
      exact (quiet_expect "]").bind fun _ => reads_pure (by simp)
    split
    · refine (reads_template h ctx true).bind_append fun quoted => ?_
      exact reads_optional _ (quiet_report _) fun _ => reads_pure (by simp)
    · exact reads_answer rfl
  split
  · exact Reads.bind (reads_answer rfl) hgo
  · exact (quiet_eat ".").bind hgo

theorem reads_memberAccesses
    (h : rules.InOrder)
    (ctx : Context)
    (access : Access) :
    Reads access.tree.idents (fun access => access.tree.idents)
      (memberAccesses rules ctx access) :=
  reads_untilDone (reads_memberRound h ctx) access

theorem reads_callRound
    (h : rules.InOrder)
    (ctx : Context)
    (access : Access) :
    Reads access.tree.idents
      (Sum.elim (fun access => access.tree.idents) fun access => access.tree.idents)
      (callRound rules ctx access) := by
  refine (reads_memberAccesses h ctx access).bind fun access => ?_
  refine (quiet_eat "?.").bind fun optional => (quiet_at? "(").bind fun opens => ?_
  split
  · exact (reads_arguments h ctx).bind_append fun parts => reads_pure (by simp)
  split
  · exact (stops_fail _).reads
  · exact reads_answer rfl

theorem reads_accessExpression
    (h : rules.InOrder)
    (ctx : Context) :
    Reads [] Tree.idents (accessExpression rules ctx) := by
  refine (h _ _).bind fun first => ?_
  refine (reads_untilDone (reads_callRound h ctx) ⟨first, false⟩).bind fun access => ?_
  split
  · exact reads_pure (by simp)
  · exact reads_answer rfl

theorem reads_newExpression
    (h : rules.InOrder)
    (ctx : Context) :
    Reads [] Tree.idents (newExpression rules ctx) := by
  refine quiet_advance.bind fun _ => (quiet_eat ".").bind fun dot => ?_
  split
  · refine (quiet_eatWord "target").bind fun found => ?_
    split
    · exact reads_pure (by simp)
    · exact (stops_fail _).reads
  refine (h _ _).bind fun first => ?_
  refine (reads_memberAccesses h ctx ⟨first, false⟩).bind fun callee => ?_
  refine reads_optional _ (quiet_report _) fun _ => (quiet_at? "?.").bind fun chained => ?_
  refine (quiet_at? "(").bind fun opens => ?_
  extract_lets finish
  have hfinish : ∀ parts, Reads (callee.tree.idents ++ Tree.identsOf parts) Tree.idents
      (finish parts) := fun parts =>
    reads_optional _ (quiet_report _) fun _ => reads_pure (by simp)
  split
  · exact (reads_arguments h ctx).bind_append hfinish
  · exact Reads.bind (reads_answer (by simp)) hfinish

theorem reads_wordExpression
    (h : rules.InOrder)
    (ctx : Context)
    (here : Token) :
    Reads [] Tree.idents (wordExpression rules ctx here) := by
  unfold wordExpression
  split
  iterate 4 exact reads_tokenLeaf
  · exact reads_functionAny h ctx true false
  · exact reads_classAny h ctx false
  · exact reads_newExpression h ctx
  · exact reads_superWord
  · exact reads_importExpression h ctx
  · refine quiet_asyncFunctionAhead?.bind fun found => ?_
    split
    · exact reads_functionAny h ctx true false
    · exact reads_identifierReference ctx
  · exact reads_identifierReference ctx

theorem readsFrom_markedExpression
    {text : List Char} {s : State}
    (h : rules.InOrder)
    (ctx : Context)
    (hkind : s.token.kind = .punctuator) :
    ReadsFrom text s [] Tree.idents (markedExpression rules ctx s.token) := by
  unfold markedExpression
  split
  · exact reads_parenthesized h ctx text s
  · exact reads_array h ctx text s
  · exact reads_object h ctx text s
  · exact readsFrom_regularExpression hkind
  · exact readsFrom_regularExpression hkind
  · exact reads_decoratedClass h ctx false text s
  · exact stops_unexpected.reads text s

theorem reads_primaryExpression
    (h : rules.InOrder)
    (ctx : Context) :
    Reads [] Tree.idents (primaryExpression rules ctx) := by
  intro text s
  refine (quiet_token [] text s).bind fun here t hhere => ?_
  cases hhere
  split
  · exact reads_wordExpression h ctx s.token text s
  · exact readsFrom_markedExpression h ctx (by assumption)
  · exact reads_tokenLeaf text s
  · exact reads_tokenLeaf text s
  · exact reads_template h ctx false text s
  · exact stops_unexpected.reads text s

/-! ### Signs and updates -/

theorem reads_updateExpression
    (h : rules.InOrder)
    (ctx : Context) :
    Reads [] Tree.idents (updateExpression rules ctx) := by
  refine quiet_token.bind fun here => ?_
  split
  · refine quiet_advance.bind fun _ => (h _ _).bind fun operand => ?_
    refine (narrows_toSimpleTarget operand).reads.bind fun target => reads_pure (by simp)
  refine (h _ _).bind fun operand => quiet_token.bind fun next => ?_
  split
  · refine quiet_advance.bind fun _ => ?_
    exact (narrows_toSimpleTarget operand).reads.bind fun target => reads_pure (by simp)
  · exact reads_answer rfl

theorem reads_awaitExpression
    (h : rules.InOrder)
    (ctx : Context) :
    Reads [] Tree.idents (awaitExpression rules ctx) := by
  unfold awaitExpression
  refine reads_optional _ (quiet_report _) fun _ => ?_
  exact quiet_advance.bind fun _ => (h _ _).bind fun operand => reads_pure (by simp)

theorem reads_signedOperand
    (h : rules.InOrder)
    (ctx : Context) :
    Reads [] Tree.idents (signedOperand rules ctx) := by
  refine quiet_token.bind fun here => ?_
  split
  · exact quiet_advance.bind fun _ => (h _ _).bind fun operand => reads_pure (by simp)
  refine (quiet_ahead _).bind fun found => ?_
  split
  · exact reads_awaitExpression h ctx
  · exact reads_updateExpression h ctx

end Rule
end Script
end FeatureProbes
