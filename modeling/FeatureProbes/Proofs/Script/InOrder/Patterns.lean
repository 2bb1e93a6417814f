import FeatureProbes.Proofs.Script.InOrder
import FeatureProbes.Script.Pattern

/-!
# Patterns read identifiers in order

Patterns of declared variables are read like any other construct.  A pattern of assigned variables
is made from an expression that was read before: no token is taken, and every identifier of the
pattern is one of the expression, in the same order.
-/

namespace FeatureProbes
namespace Script
namespace Rule

variable {rules : Rules}

/-! ### Declared variables -/

theorem reads_withInitializer
    (h : rules.InOrder)
    (ctx : Context)
    (target : Tree) :
    Reads target.idents Tree.idents (withInitializer rules ctx target) := by
  refine (quiet_eat "=").bind fun found => ?_
  split
  · exact (h _ _).bind_append fun value => reads_pure (by simp)
  · exact reads_answer rfl

theorem reads_patternElement
    (h : rules.InOrder)
    (ctx : Context) :
    Reads [] Tree.idents (patternElement rules ctx) :=
  (h _ _).bind fun target => reads_withInitializer h ctx target

theorem reads_arrayPatternElement
    (h : rules.InOrder)
    (ctx : Context) :
    Reads [] Tree.idents (arrayPatternElement rules ctx) := by
  refine (quiet_at? ",").bind fun comma => ?_
  split
  · exact reads_pure (by simp)
  · exact reads_patternElement h ctx

theorem reads_restElement
    (h : rules.InOrder)
    (ctx : Context) :
    Reads [] Tree.idents (restElement rules ctx) := by
  refine quiet_advance.bind fun _ => (h _ _).bind fun target => (quiet_at? "=").bind fun found => ?_
  split
  · refine (quiet_report _).bind fun _ => quiet_advance.bind fun _ => ?_
    exact (h _ _).bind_append fun value => reads_pure (by simp)
  · exact reads_pure (by simp)

theorem reads_objectRestElement
    (h : rules.InOrder)
    (ctx : Context) :
    Reads [] Tree.idents (objectRestElement rules ctx) := by
  refine (reads_restElement h ctx).bind fun element => ?_
  exact reads_optional _ (quiet_report _) fun _ => reads_answer rfl

/-- A property that is bound to its own name has the identifier that its name leaves room for. -/
theorem reads_bindingProperty
    (h : rules.InOrder)
    (ctx : Context) :
    Reads [] Tree.idents (bindingProperty rules ctx) := by
  intro text s
  refine (quiet_token [] text s).bind fun here t hhere => ?_
  cases hhere
  refine (readsFrom_propertyName h ctx []).bind fun key t _ => ?_
  refine (quiet_at? ":").bind (fun colon => ?_) text t
  split
  · rename_i hnamed
    have hword : wordIdents s.token = [s.token.ident] :=
      wordIdents_of_isIdentifier (Bool.and_eq_true_iff.1 hnamed).1
    refine (quiet_checkIdentifier ctx _).bind fun _ => (quiet_eat "=").bind fun found => ?_
    split
    · exact (h _ _).bind_append fun value => reads_pure (by simp [hword, Token.ident])
    · exact reads_pure (by simp [hword, Token.ident])
  · refine (quiet_expect ":").bind fun _ => ?_
    exact (reads_patternElement h ctx).bind_append fun value => reads_pure (by simp)

theorem reads_bindingPattern
    (h : rules.InOrder)
    (ctx : Context) :
    Reads [] Tree.idents (bindingPattern rules ctx) := by
  refine (quiet_at? "\x7b").bind fun brace => ?_
  split
  · have hparts := reads_restListUntil "\x7d" .restElementLast (reads_bindingProperty h ctx)
      (reads_objectRestElement h ctx)
    refine quiet_advance.bind fun _ => hparts.bind fun parts => ?_
    exact (quiet_expect "\x7d").bind fun _ => reads_pure (by simp)
  refine (quiet_at? "[").bind fun bracket => ?_
  split
  · have hparts := reads_restListUntil "]" .restElementLast (reads_arrayPatternElement h ctx)
      (reads_restElement h ctx)
    refine quiet_advance.bind fun _ => hparts.bind fun parts => ?_
    exact (quiet_expect "]").bind fun _ => reads_pure (by simp)
  · exact reads_bindingIdentifier ctx

/-! ### Assigned variables -/

variable {α β : Type}

/-- A rule that goes no further back in the text, with a property of its answers. -/
def Answers (holds : α → Prop) (rule : Rule α) : Prop :=
  ∀ text s a t, rule s = .ok (a, t) → s.Moves text t ∧ holds a

section Answers

variable {holds : α → Prop} {rule : Rule α}

theorem Answers.bind
    {holds' : β → Prop} {next : α → Rule β}
    (h : Answers holds rule)
    (hnext : ∀ a, holds a → Answers holds' (next a)) :
    Answers holds' (rule >>= next) := by
  intro text s b u hb
  rw [bind_apply] at hb
  cases hrule : rule s with
  | error fault =>
      rw [hrule] at hb
      cases hb
  | ok pair =>
      obtain ⟨a, t⟩ := pair
      rw [hrule] at hb
      obtain ⟨hfirst, ha⟩ := h text s a t hrule
      obtain ⟨hsecond, hb⟩ := hnext a ha text t b u hb
      exact ⟨hfirst.trans hsecond, hb⟩

theorem answers_pure
    {a : α}
    (h : holds a) :
    Answers holds (pure a) := by
  intro text s b t hb
  cases hb
  exact ⟨.refl text s, h⟩

theorem Stops.answers
    (h : Stops rule) :
    Answers holds rule :=
  fun _ s a t ha => absurd ha (h s (a, t))

theorem answers_report
    (fault : Fault) :
    Answers (fun _ => True) (report fault) := by
  intro text s a t h
  cases h
  refine ⟨.of_eq rfl rfl fun hclean => ?_, trivial⟩
  exact ⟨hclean.lexical, (List.append_eq_nil_iff.1 hclean.grammatical).1⟩

/-- A rule whose answers have no other identifiers than those that are given keeps them in order. -/
theorem Answers.reads
    {before : List Ident} {after : α → List Ident}
    (h : Answers (fun a => (after a).Sublist before) rule) :
    Reads before after rule :=
  fun text s => .of_moves fun a t => h text s a t

end Answers

theorem answers_takeDefault
    (start : Nat) :
    Answers (fun _ => True) (takeDefault start) := by
  intro text s a t h
  cases h
  exact ⟨.of_eq rfl rfl fun hclean => ⟨hclean.lexical, hclean.grammatical⟩, trivial⟩

/-- A rule whose trees have no other identifiers than the given ones, in the same order. -/
def Narrows (given : List Ident) (rule : Rule Tree) : Prop :=
  Answers (fun tree => tree.idents.Sublist given) rule

/-- The same for rules that give several trees. -/
def NarrowsAll (given : List Ident) (rule : Rule (List Tree)) : Prop :=
  Answers (fun trees => (Tree.identsOf trees).Sublist given) rule

/-- The pattern that is made from an expression has no other identifiers than the expression. -/
theorem narrows_targets :
    (∀ tree, Narrows tree.idents (toTarget tree)) ∧
    (∀ parts, NarrowsAll (Tree.identsOf parts) (toProperties parts)) ∧
    (∀ tree, Narrows tree.idents (toProperty tree)) ∧
    (∀ tree, Narrows tree.idents (toElement tree)) ∧
    (∀ parts, NarrowsAll (Tree.identsOf parts) (toElements parts)) := by
  refine toTarget.mutual_induct
    (fun tree => Narrows tree.idents (toTarget tree))
    (fun parts => NarrowsAll (Tree.identsOf parts) (toProperties parts))
    (fun tree => Narrows tree.idents (toProperty tree))
    (fun tree => Narrows tree.idents (toElement tree))
    (fun parts => NarrowsAll (Tree.identsOf parts) (toElements parts))
    ?_ ?_ ?_ ?_ ?_ ?_ ?_ ?_ ?_ ?_ ?_ ?_ ?_ ?_ ?_ ?_ ?_ ?_ ?_ ?_ ?_ ?_ ?_ ?_ ?_ ?_ ?_ ?_
  case refine_1 | refine_2 =>
    intro parts ih
    rw [toTarget]
    exact ih.bind fun targets h => answers_pure (by simpa using h)
  case refine_3 =>
    intro inner hliteral _
    rw [toTarget, if_pos hliteral]
    exact (stops_fail _).bind.answers
  case refine_4 =>
    intro inner hliteral ih
    rw [toTarget, if_neg hliteral]
    exact ih.bind fun target h => answers_pure (by simpa using h)
  case refine_5 | refine_6 | refine_7 =>
    intros
    rw [toTarget]
    exact answers_pure (by simp)
  case refine_8 =>
    intros
    rw [toTarget]
    · exact (stops_fail _).answers
    all_goals assumption
  -- The properties of an object and the elements of an array go the same way.
  case refine_9 | refine_13 | refine_23 | refine_27 =>
    first | rw [toProperties] | rw [toElements]
    exact answers_pure (by simp)
  case refine_10 | refine_24 =>
    intro inner ih
    first | rw [toProperties] | rw [toElements]
    exact ih.bind fun target h => answers_pure (by simpa using h)
  case refine_11 | refine_25 =>
    intro inner ih
    first | rw [toProperties] | rw [toElements]
    exact ih.bind fun target h => (answers_report _).bind fun _ _ => answers_pure (by simpa using h)
  case refine_12 | refine_26 =>
    intro parts tail hlast htrailing
    first | rw [toProperties] | rw [toElements]
    · exact (stops_fail _).answers
    all_goals assumption
  case refine_14 | refine_28 =>
    intro tree more hlast htrailing hspread hcomma ihTree ihMore
    first | rw [toProperties] | rw [toElements]
    · refine ihTree.bind fun target htarget => ihMore.bind fun targets htargets => ?_
      exact answers_pure (htarget.append htargets)
    all_goals assumption
  case refine_15 =>
    intro parts
    rw [toProperty]
    exact answers_pure (by simp)
  case refine_16 =>
    intro start parts
    rw [toProperty]
    exact (answers_takeDefault start).bind fun _ _ => answers_pure (by simp)
  case refine_17 =>
    intro key value ih
    rw [toProperty]
    exact ih.bind fun target h => answers_pure (by simpa using h)
  case refine_18 =>
    intros
    rw [toProperty]
    · exact (stops_fail _).answers
    all_goals assumption
  case refine_19 =>
    intro operator parts hoperator
    rw [toElement, if_pos hoperator]
    exact (answers_report _).bind fun _ _ => answers_pure (by simp)
  case refine_20 =>
    intro operator parts hoperator
    rw [toElement, if_neg hoperator]
    exact answers_pure (by simp)
  case refine_21 =>
    intro parts
    rw [toElement]
    exact answers_pure (by simp)
  case refine_22 =>
    intro tree hoperator hhole ih
    rw [toElement]
    · exact ih
    all_goals assumption

theorem narrows_toTarget
    (tree : Tree) :
    Narrows tree.idents (toTarget tree) :=
  narrows_targets.1 tree

theorem narrows_toSimpleTarget
    (tree : Tree) :
    Narrows tree.idents (toSimpleTarget tree) := by
  unfold toSimpleTarget
  split
  · exact (stops_fail _).bind.answers
  · exact narrows_toTarget tree

end Rule
end Script
end FeatureProbes
