import FeatureProbes.Proofs.Script.InOrder.Operands

/-!
# Expressions read identifiers in order

Operators, arrow functions, assignments and expressions separated by commas.  The left side of an
assignment and the parameter of an arrow function are read as expressions first; what is made of
them has no other identifiers.
-/

namespace FeatureProbes
namespace Script
namespace Rule

variable {rules : Rules}

/-! ### Operators -/

theorem quiet_checkCoalesce
    (left right : Tree)
    (leftBracket rightBracket : Bool) :
    Quiet (checkCoalesce left right leftBracket rightBracket) :=
  fun _ => reads_optional _ (quiet_report _) fun _ => reads_answer rfl

theorem reads_operationRound
    (h : rules.InOrder)
    (ctx : Context)
    (level : Nat)
    (leftBracket : Bool)
    (left : Tree) :
    Reads left.idents (Sum.elim Tree.idents Tree.idents)
      (operationRound rules ctx level leftBracket left) := by
  refine quiet_joinRightAngles.bind fun _ => quiet_token.bind fun here => ?_
  split
  · exact reads_answer rfl
  refine reads_ite (reads_answer rfl) (reads_ite (reads_answer rfl) ?_)
  refine quiet_advance.bind fun _ => (quiet_at? "(").bind fun rightBracket => ?_
  refine (h _ _).bind_append fun right => ?_
  split
  · exact reads_optional _ (quiet_checkCoalesce _ _ _ _) fun _ => reads_pure (by simp)
  · exact reads_optional _ (quiet_report _) fun _ => reads_pure (by simp)

theorem reads_privateOperand
    (h : rules.InOrder)
    (ctx : Context) :
    Reads [] Tree.idents (privateOperand rules ctx) := by
  refine quiet_token.bind fun here => quiet_step.bind fun _ => ?_
  refine (quiet_expectWord "in").bind fun _ => (h _ _).bind fun object => ?_
  exact reads_optional _ (quiet_fail _) fun _ => reads_pure (by simp)

theorem reads_operation
    (h : rules.InOrder)
    (ctx : Context)
    (level : Nat) :
    Reads [] Tree.idents (operation rules ctx level) := by
  refine quiet_token.bind fun here => ?_
  extract_lets more
  have hmore : ∀ first, Reads first.idents Tree.idents (more first) :=
    reads_untilDone (reads_operationRound h ctx level _)
  split
  · exact (reads_privateOperand h ctx).bind hmore
  · exact (h _ _).bind hmore

/-! ### Arrow functions -/

theorem reads_arrowBody
    (h : rules.InOrder)
    (ctx : Context)
    (isAsync : Bool)
    (parameters : Tree) :
    Reads parameters.idents Tree.idents (arrowBody rules ctx isAsync parameters) := by
  refine (quiet_at? "\x7b").bind fun brace => ?_
  split
  · exact (reads_functionBody h _).bind_append fun body => reads_pure (by simp)
  · exact (h _ _).bind_append fun body => reads_pure (by simp)

theorem quiet_expectArrow : Quiet expectArrow := by
  intro before
  refine quiet_token.bind fun here => ?_
  exact reads_optional _ (quiet_report _) fun _ => quiet_expect "=>" before

theorem reads_arrowHead
    (h : rules.InOrder)
    (ctx : Context) :
    Reads [] (fun head => head.1.idents) (arrowHead rules ctx) := by
  refine (quiet_eatWord "async").bind fun isAsync => ?_
  refine (reads_formalParameters h _).bind fun parameters => ?_
  exact quiet_expectArrow.bind fun _ => reads_answer rfl

theorem reads_singleArrow
    (h : rules.InOrder)
    (ctx : Context)
    (isAsync : Bool)
    (parameter : Ident) :
    Reads [parameter] Tree.idents (singleArrow rules ctx isAsync parameter) := by
  have hbody := reads_arrowBody h ctx isAsync (.node .parameters [.binding parameter])
  rw [Tree.idents_node, Tree.identsOf_cons, Tree.idents_binding] at hbody
  exact quiet_expectArrow.bind fun _ => hbody

theorem quiet_guessArrow : Quiet guessArrow := by
  intro before
  refine quiet_token.bind fun here => ?_
  split
  · exact quiet_ahead _ before
  split
  · exact quiet_ahead _ before
  · exact reads_answer rfl

theorem reads_arrowFunction?
    (h : rules.InOrder)
    (ctx : Context) :
    Reads [] (fun answer => answer.elim [] Tree.idents) (arrowFunction? rules ctx) := by
  have hrest : ∀ head : Tree × Bool,
      Reads head.1.idents (fun answer : Option Tree => answer.elim [] Tree.idents)
        (do return some (← arrowBody rules ctx head.2 head.1)) := fun head =>
    (reads_arrowBody h ctx head.2 head.1).bind fun tree => reads_answer rfl
  refine quiet_guessArrow.bind fun guess => ?_
  split
  · exact reads_answer rfl
  · exact (reads_arrowHead h ctx).bind hrest
  · refine (reads_arrowHead h ctx).attempt.bind fun answer => ?_
    split
    · exact reads_answer rfl
    · exact hrest _

theorem quiet_asyncArrowAhead? : Quiet asyncArrowAhead? := by
  intro before
  refine (quiet_atWord? "async").bind fun found => ?_
  split
  · exact quiet_ahead _ before
  · exact reads_answer rfl

/-- Where an asynchronous arrow function without parentheses begins, its parameter comes next. -/
theorem isIdentifier_of_asyncArrowAhead?
    {s t : State}
    (h : asyncArrowAhead? s = .ok (true, t)) :
    t = s ∧ s.next.token.isIdentifier = true := by
  unfold asyncArrowAhead? at h
  simp only [bind_apply, atWord?_apply] at h
  split at h
  · obtain ⟨rfl, u, hnext⟩ := of_ahead_eq_ok h
    refine ⟨rfl, ?_⟩
    simp only [bind_apply, step_apply, token_apply] at hnext
    split at hnext
    · cases hnext
    · rename_i hidentifier
      simp at hidentifier
      exact hidentifier.2
  · cases h

/-! ### Assignments -/

theorem token_eq_of_advance
    {s t : State} {r : Unit}
    (h : advance s = .ok (r, t)) :
    t.token = s.next.token := by
  unfold advance at h
  simp only [bind_apply, token_apply] at h
  split at h
  · cases h
    rfl
  · cases h
    rfl

theorem reads_yieldExpression
    (h : rules.InOrder)
    (ctx : Context) :
    Reads [] Tree.idents (yieldExpression rules ctx) := by
  refine quiet_advance.bind fun _ => reads_optional _ (quiet_report _) fun _ => ?_
  refine quiet_token.bind fun here => ?_
  split
  · exact reads_pure (by simp)
  refine (quiet_eat "*").bind fun delegate => quiet_token.bind fun next => ?_
  extract_lets ends
  split
  · exact (h _ _).bind fun value => reads_pure (by simp)
  · exact reads_pure (by simp)

theorem quiet_yieldAhead?
    (ctx : Context) :
    Quiet (yieldAhead? ctx) := by
  intro before
  refine (quiet_atWord? "yield").bind fun found => ?_
  split
  · split
    · exact reads_answer rfl
    · exact quiet_ahead _ before
  · exact reads_answer rfl

theorem reads_conditionalRest
    (h : rules.InOrder)
    (ctx : Context)
    (condition : Tree) :
    Reads condition.idents Tree.idents (conditionalRest rules ctx condition) := by
  refine (quiet_eat "?").bind fun found => ?_
  split
  · refine (h _ _).bind_append fun first => (quiet_expect ":").bind fun _ => ?_
    exact (h _ _).bind_append fun second => reads_pure (by simp)
  · exact reads_answer rfl

theorem reads_assignmentRest
    (h : rules.InOrder)
    (ctx : Context)
    (left : Tree) :
    Reads left.idents Tree.idents (assignmentRest rules ctx left) := by
  refine quiet_token.bind fun here => ?_
  split
  · rename_i parameter hparameter _
    obtain rfl : left = .reference parameter := by
      cases left <;> simp_all [Tree.reference?]
    rw [Tree.idents_reference]
    exact reads_singleArrow h ctx false parameter
  split
  · extract_lets assign
    have hassign : ∀ target, Reads target.idents Tree.idents (assign target) := fun target =>
      quiet_advance.bind fun _ => (h _ _).bind_append fun value => reads_pure (by simp)
    split
    · exact (narrows_toTarget left).reads.bind hassign
    · exact (narrows_toSimpleTarget left).reads.bind hassign
  · exact reads_conditionalRest h ctx left

theorem reads_assignment
    (h : rules.InOrder)
    (ctx : Context) :
    Reads [] Tree.idents (assignment rules ctx) := by
  refine (quiet_yieldAhead? ctx).bind fun found => ?_
  split
  · exact reads_yieldExpression h ctx
  refine (reads_arrowFunction? h ctx).bind fun answer => ?_
  cases answer with
  | some function =>
      exact reads_answer rfl
  | none =>
      intro text s
      refine (quiet_asyncArrowAhead? [] text s).bind fun found t hfound => ?_
      split
      · rename_i hahead
        rw [hahead] at hfound
        obtain ⟨rfl, hidentifier⟩ := isIdentifier_of_asyncArrowAhead? hfound
        refine (quiet_advance [] text t).bind fun _ u hadvance => ?_
        have htoken : u.token = t.next.token := token_eq_of_advance hadvance
        have hword : u.token.kind = .word := by
          rw [htoken]
          exact kind_eq_word_of_isIdentifier hidentifier
        refine (readsFrom_takeIdent [] hword).bind fun parameter v _ => ?_
        exact reads_singleArrow h ctx true parameter text v
      · exact (h _ _).bind (reads_assignmentRest h ctx) text t

theorem reads_sequenceRound
    (h : rules.InOrder)
    (ctx : Context)
    (read : List Tree) :
    Reads (Tree.identsOf read.reverse)
      (Sum.elim (fun read => Tree.identsOf read.reverse) Tree.identsOf)
      (sequenceRound rules ctx read) := by
  refine (quiet_eat ",").bind fun comma => ?_
  split
  · exact (h _ _).bind_append fun tree => reads_pure (by simp)
  · exact reads_answer rfl

theorem reads_expression
    (h : rules.InOrder)
    (ctx : Context) :
    Reads [] Tree.idents (expression rules ctx) := by
  refine (h _ _).bind fun first => (quiet_at? ",").bind fun comma => ?_
  split
  · have hparts : Reads first.idents Tree.identsOf
        (untilDone (sequenceRound rules { ctx with inDecorator := false }) [first]) := by
      simpa using reads_untilDone (reads_sequenceRound h { ctx with inDecorator := false }) [first]
    exact hparts.bind fun parts => reads_pure (by simp)
  · exact reads_answer rfl

theorem reads_condition
    (h : rules.InOrder)
    (ctx : Context) :
    Reads [] Tree.idents (condition rules ctx) := by
  refine (quiet_expect "(").bind fun _ => (h _ _).bind fun tree => ?_
  exact (quiet_expect ")").bind fun _ => reads_answer rfl

end Rule
end Script
end FeatureProbes
