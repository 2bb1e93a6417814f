import FeatureProbes.Proofs.Script.InOrder.Patterns
import FeatureProbes.Script.ClassBody

/-!
# Functions and classes read identifiers in order

The name, the parameters and the body of a function stand in this order, and so do the parts of a
class.
-/

namespace FeatureProbes
namespace Script
namespace Rule

variable {rules : Rules}

/-! ### Functions -/

theorem reads_formalParameters
    (h : rules.InOrder)
    (ctx : Context) :
    Reads [] Tree.idents (formalParameters rules ctx) := by
  have hparts := reads_restListUntil ")" .restParameterLast (reads_patternElement h ctx)
    (reads_restElement h ctx)
  refine (quiet_expect "(").bind fun _ => hparts.bind fun parts => ?_
  exact (quiet_expect ")").bind fun _ => reads_pure (by simp)

theorem reads_functionBody
    (h : rules.InOrder)
    (ctx : Context) :
    Reads [] Tree.idents (functionBody rules ctx) := by
  have hparts := reads_rowUntil (quiet_at? "\x7d")
    (h (.statement false) { ctx with inReturn := true, inDecorator := false })
  refine (quiet_expect "\x7b").bind fun _ => hparts.bind fun parts => ?_
  exact (quiet_expect "\x7d").bind fun _ => reads_pure (by simp)

theorem reads_functionRest
    (h : rules.InOrder)
    (ctx : Context)
    (isAsync generator : Bool)
    (name : List Tree) :
    Reads (Tree.identsOf name) Tree.idents (functionRest rules ctx isAsync generator name) := by
  refine (reads_formalParameters h _).bind_append fun parameters => ?_
  refine (quiet_at? "\x7b").bind fun brace => ?_
  split
  · exact (stops_fail _).bind.reads
  · exact (reads_functionBody h _).bind_append fun body => reads_pure (by simp)

theorem reads_functionName
    (ctx : Context)
    (required : Bool) :
    Reads [] Tree.identsOf (functionName ctx required) := by
  intro text s
  refine (quiet_token [] text s).bind fun here t hhere => ?_
  cases hhere
  split
  · rename_i hidentifier
    exact readsFrom_checkedIdent hidentifier fun id => reads_answer (by simp)
  · extract_lets finish
    have hfinish : ∀ r, Reads [] Tree.identsOf (finish r) := fun _ => reads_pure (by simp)
    refine (?_ : Reads [] Tree.identsOf _) text s
    split
    · split
      · exact (quiet_report _).bind hfinish
      split
      · exact (stops_fail _).bind.reads
      · exact hfinish ()
    · exact hfinish ()

theorem reads_functionAny
    (h : rules.InOrder)
    (ctx : Context)
    (expression required : Bool) :
    Reads [] Tree.idents (functionAny rules ctx expression required) := by
  refine (quiet_eatWord "async").bind fun isAsync => ?_
  refine (quiet_expectWord "function").bind fun _ => (quiet_eat "*").bind fun generator => ?_
  exact (reads_functionName _ required).bind fun name => reads_functionRest h ctx _ _ name

theorem quiet_asyncFunctionAhead? : Quiet asyncFunctionAhead? :=
  quiet_ahead _

theorem reads_methodRest
    (h : rules.InOrder)
    (ctx : Context)
    (isAsync generator : Bool) :
    Reads [] Tree.idents (methodRest rules ctx isAsync generator) :=
  reads_functionRest h ctx isAsync generator []

theorem quiet_checkGetter
    (function : Tree) :
    Quiet (checkGetter function) := by
  intro before
  exact reads_optional _ (quiet_report _) fun _ => reads_answer rfl

theorem quiet_checkSetter
    (function : Tree) :
    Quiet (checkSetter function) := by
  intro before
  unfold checkSetter
  split
  · exact reads_optional _ (quiet_report _) fun _ => reads_answer rfl
  · exact quiet_report _ before

theorem quiet_eatModifier
    (word : String)
    (sameLine : Bool) :
    Quiet (eatModifier word sameLine) := by
  intro before
  refine (quiet_atWord? word).bind fun found => (quiet_ahead _).bind fun named => ?_
  split
  · exact quiet_advance.bind fun _ => reads_answer rfl
  · exact reads_answer rfl

/-! ### Classes -/

theorem reads_decorators
    (h : rules.InOrder)
    (ctx : Context) :
    Reads [] Tree.identsOf (decorators rules ctx) := by
  refine reads_rowUntil ?_ ?_
  · exact fun _ => (quiet_at? "@").bind fun _ => reads_answer rfl
  · exact quiet_advance.bind fun _ => (h _ _).bind fun expression => reads_pure (by simp)

theorem reads_memberName
    (h : rules.InOrder)
    (ctx : Context) :
    Reads [] (fun name => name.1.idents) (memberName rules ctx) := by
  refine quiet_token.bind fun here => ?_
  split
  · refine reads_optional _ (quiet_report _) fun _ => ?_
    exact quiet_step.bind fun _ => reads_pure (by simp)
  · exact (reads_propertyName h ctx).bind fun key => reads_pure (by simp)

theorem reads_classAccessor
    (h : rules.InOrder)
    (ctx : Context)
    (isStatic getter : Bool) :
    Reads [] Tree.idents (classAccessor rules ctx isStatic getter) := by
  refine (reads_memberName h ctx).bind fun name => ?_
  refine (reads_methodRest h ctx false false).bind_append fun method => ?_
  extract_lets answer finish
  have hanswer : ∀ r, Reads (name.1.idents ++ method.idents) Tree.idents (answer r) :=
    fun _ => reads_pure (by simp)
  have hfinish : ∀ r, Reads (name.1.idents ++ method.idents) Tree.idents (finish r) :=
    fun _ => reads_optional _ (quiet_report _) hanswer
  split
  · exact (quiet_checkGetter method).bind hfinish
  · exact (quiet_checkSetter method).bind hfinish

theorem reads_classField
    (h : rules.InOrder)
    (ctx : Context)
    (key : Tree) :
    Reads key.idents Tree.idents (classField rules ctx key) := by
  refine (quiet_eat "=").bind fun found => ?_
  split
  · refine (h _ _).bind_append fun value => ?_
    exact quiet_endStatement.bind fun _ => reads_pure (by simp)
  · exact quiet_endStatement.bind fun _ => reads_pure (by simp)

theorem reads_classMethodOrField
    (h : rules.InOrder)
    (ctx : Context)
    (isStatic isAsync : Bool) :
    Reads [] Tree.idents (classMethodOrField rules ctx isStatic isAsync) := by
  refine (quiet_eat "*").bind fun generator => quiet_token.bind fun here => ?_
  refine (reads_memberName h ctx).bind fun name => (quiet_at? "(").bind fun opens => ?_
  split
  · extract_lets method checkAsync
    have hmethod : ∀ r, Reads name.1.idents Tree.idents (method r) := fun _ =>
      (reads_methodRest h ctx isAsync generator).bind_append fun method => reads_pure (by simp)
    have hcheckAsync : ∀ r, Reads name.1.idents Tree.idents (checkAsync r) := fun _ =>
      reads_optional _ (quiet_report _) hmethod
    split
    · exact reads_optional _ (quiet_report _) hcheckAsync
    · exact hmethod ()
  · extract_lets field checkName
    have hfield : ∀ r, Reads name.1.idents Tree.idents (field r) := fun _ =>
      reads_classField h ctx name.1
    have hcheckName : ∀ r, Reads name.1.idents Tree.idents (checkName r) := fun _ =>
      reads_optional _ (quiet_report _) hfield
    exact reads_optional _ (quiet_report _) hcheckName

theorem reads_staticBlock
    (h : rules.InOrder)
    (ctx : Context) :
    Reads [] Tree.idents (staticBlock rules ctx) := by
  have hparts := reads_rowUntil (quiet_at? "\x7d") (h (.statement false)
    { ctx with inAwait := true, inYield := false, inReturn := false, inDecorator := false })
  refine (quiet_expect "\x7b").bind fun _ => hparts.bind fun parts => ?_
  exact (quiet_expect "\x7d").bind fun _ => reads_pure (by simp)

theorem quiet_staticBlockAhead? : Quiet staticBlockAhead? := by
  intro before
  refine (quiet_atWord? "static").bind fun found => ?_
  split
  · exact quiet_ahead _ before
  · exact reads_answer rfl

theorem reads_classMember
    (h : rules.InOrder)
    (ctx : Context) :
    Reads [] Tree.idents (classMember rules ctx) := by
  refine (quiet_eat ";").bind fun empty => ?_
  split
  · exact reads_pure (by simp)
  refine (reads_decorators h ctx).bind fun decorated => ?_
  have hblock : Reads (Tree.identsOf decorated) Tree.idents (staticBlock rules ctx) :=
    (reads_staticBlock h ctx).behind _
  refine quiet_staticBlockAhead?.bind fun block => ?_
  split
  · exact quiet_advance.bind fun _ => hblock
  refine (quiet_eatModifier "static" false).bind fun isStatic => ?_
  refine quiet_staticBlockAhead?.bind fun block => ?_
  split
  · exact quiet_advance.bind fun _ => hblock
  refine (quiet_eatModifier "accessor" true).bind fun isAccessor => ?_
  refine (quiet_eatModifier "async" true).bind fun isAsync => ?_
  refine (quiet_eatModifier "get" false).bind fun getter => ?_
  extract_lets finish
  have hfinish : ∀ member : Tree, Reads (Tree.identsOf decorated ++ member.idents) Tree.idents
      (finish member) := fun member => by
    refine reads_pure ?_
    rw [Tree.idents_node, Tree.identsOf_append]
    exact member.identsOf_parts_sublist.append_left _
  split
  · exact (reads_classAccessor h ctx isStatic true).bind_append hfinish
  refine (quiet_eatModifier "set" false).bind fun setter => ?_
  split
  · exact (reads_classAccessor h ctx isStatic false).bind_append hfinish
  · exact (reads_classMethodOrField h ctx isStatic _).bind_append hfinish

/-- The superclass, if there is one. -/
theorem reads_heritage
    (h : rules.InOrder)
    (ctx : Context) :
    Reads [] Tree.identsOf (heritage rules ctx) := by
  refine (quiet_eatWord "extends").bind fun found => ?_
  split
  · exact (h _ _).bind fun parent => reads_pure (by simp)
  · exact reads_pure (by simp)

theorem reads_classAny
    (h : rules.InOrder)
    (ctx : Context)
    (required : Bool) :
    Reads [] Tree.idents (classAny rules ctx required) := by
  refine (quiet_expectWord "class").bind fun _ => quiet_token.bind fun here => ?_
  have hmembers := reads_rowUntil (quiet_at? "\x7d")
    (reads_classMember h { ctx with inDecorator := false })
  extract_lets finish
  have hfinish : ∀ name, Reads (Tree.identsOf name) Tree.idents (finish name) := by
    intro name
    refine reads_optional _ (quiet_report _) fun _ => ?_
    refine (reads_heritage h ctx).bind_append fun parent => (quiet_expect "\x7b").bind fun _ => ?_
    refine hmembers.bind_append fun members => ?_
    exact (quiet_expect "\x7d").bind fun _ => reads_pure (by simp)
  split
  · refine (reads_bindingIdentifier ctx).bind fun name => ?_
    exact Reads.bind (reads_answer (by simp)) hfinish
  · exact Reads.bind (reads_answer (by simp)) hfinish

end Rule
end Script
end FeatureProbes
