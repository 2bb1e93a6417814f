import FeatureProbes.Proofs.Script.InOrder.Linkage
import FeatureProbes.Script.Statement

/-!
# Statements read identifiers in order

The rules of all goals keep identifiers in order, by induction on the depth of nesting.  So where a
text is a script, the identifiers of its tree stand in the text one after the other, and each is
spelled there as its name is read.
-/

namespace FeatureProbes
namespace Script
namespace Rule

variable {rules : Rules}

/-! ### Variables -/

theorem quiet_checkInitializer
    (kind : String)
    (declarator : Tree) :
    Quiet (checkInitializer kind declarator) := by
  intro before
  unfold checkInitializer
  split
  · exact reads_optional _ (quiet_report _) fun _ => reads_answer rfl
  · exact quiet_report _ before
  · exact reads_answer rfl

theorem reads_declarator
    (h : rules.InOrder)
    (ctx : Context)
    (kind : String)
    (checked : Bool) :
    Reads [] Tree.idents (declarator rules ctx kind checked) := by
  refine (h _ _).bind fun target => (quiet_eat "=").bind fun found => ?_
  extract_lets finish
  have hfinish : ∀ parts, Reads (Tree.identsOf parts) Tree.idents (finish parts) := fun parts =>
    reads_optional _ (quiet_checkInitializer _ _) fun _ => reads_pure (by simp)
  split
  · exact (h _ _).bind_append fun value => Reads.bind (reads_answer (by simp)) hfinish
  · exact Reads.bind (reads_answer (by simp)) hfinish

theorem reads_declaratorRound
    (h : rules.InOrder)
    (ctx : Context)
    (kind : String)
    (checked : Bool)
    (read : List Tree) :
    Reads (Tree.identsOf read.reverse)
      (Sum.elim (fun read => Tree.identsOf read.reverse) Tree.identsOf)
      (declaratorRound rules ctx kind checked read) := by
  refine (reads_declarator h ctx kind checked).bind_append fun tree => ?_
  refine (quiet_eat ",").bind fun comma => ?_
  split
  · exact reads_pure (by simp)
  · exact reads_pure (by simp)

theorem reads_declarators
    (h : rules.InOrder)
    (ctx : Context)
    (kind : String)
    (checked : Bool) :
    Reads [] Tree.idents (declarators rules ctx kind checked) :=
  (reads_untilDone (reads_declaratorRound h ctx kind checked) []).bind fun parts =>
    reads_pure (by simp)

theorem reads_variableStatement
    (h : rules.InOrder)
    (ctx : Context)
    (single : Bool) :
    Reads [] Tree.idents (variableStatement rules ctx single) := by
  refine quiet_token.bind fun here => quiet_advance.bind fun _ => ?_
  refine (reads_declarators h ctx _ true).bind fun tree => quiet_endStatement.bind fun _ => ?_
  exact reads_optional _ (quiet_report _) fun _ => reads_answer rfl

/-! ### Expressions -/

theorem reads_expressionStatement
    (h : rules.InOrder)
    (ctx : Context) :
    Reads [] Tree.idents (expressionStatement rules ctx) := by
  refine (h _ _).bind fun tree => (quiet_at? ":").bind fun colon => ?_
  split
  · refine quiet_advance.bind fun _ => (h _ _).bind_append fun labeled => reads_pure ?_
    simp
  · exact quiet_endStatement.bind fun _ => reads_pure (by simp)

theorem reads_letStatement
    (h : rules.InOrder)
    (ctx : Context)
    (single : Bool) :
    Reads [] Tree.idents (letStatement rules ctx single) := by
  refine (quiet_ahead _).bind fun found => ?_
  split
  · exact reads_variableStatement h ctx single
  split
  · refine (reads_identifierReference ctx).bind fun tree => ?_
    exact quiet_endStatement.bind fun _ => reads_pure (by simp)
  · exact reads_expressionStatement h ctx

/-! ### Control flow -/

theorem reads_block
    (h : rules.InOrder)
    (ctx : Context) :
    Reads [] Tree.idents (block rules ctx) := by
  have hparts := reads_rowUntil (quiet_at? "\x7d") (h (.statement false) ctx)
  refine (quiet_expect "\x7b").bind fun _ => hparts.bind fun parts => ?_
  exact (quiet_expect "\x7d").bind fun _ => reads_pure (by simp)

theorem reads_ifStatement
    (h : rules.InOrder)
    (ctx : Context) :
    Reads [] Tree.idents (ifStatement rules ctx) := by
  refine quiet_advance.bind fun _ => (reads_condition h ctx).bind fun test => ?_
  refine (h _ _).bind_append fun first => (quiet_eatWord "else").bind fun found => ?_
  split
  · exact (h _ _).bind_append fun second => reads_pure (by simp)
  · exact reads_pure (by simp)

theorem reads_doStatement
    (h : rules.InOrder)
    (ctx : Context) :
    Reads [] Tree.idents (doStatement rules ctx) := by
  refine quiet_advance.bind fun _ => (h _ _).bind fun body => ?_
  refine (quiet_expectWord "while").bind fun _ => (reads_condition h ctx).bind_append fun test => ?_
  refine (quiet_at? ";").bind fun found => ?_
  exact reads_optional _ quiet_advance fun _ => reads_pure (by simp)

theorem reads_whileStatement
    (h : rules.InOrder)
    (ctx : Context) :
    Reads [] Tree.idents (whileStatement rules ctx) := by
  refine quiet_advance.bind fun _ => (reads_condition h ctx).bind fun test => ?_
  exact (h _ _).bind_append fun body => reads_pure (by simp)

theorem reads_countedLoop
    (h : rules.InOrder)
    (ctx : Context)
    (start : List Tree)
    (waits : Bool) :
    Reads (Tree.identsOf start) Tree.idents (countedLoop rules ctx start waits) := by
  refine (quiet_expect ";").bind fun _ => ?_
  extract_lets whole readUpdate
  refine (quiet_forIn fun tree _ before => ?_).bind fun _ => ?_
  · split
    · refine (quiet_forIn fun part _ before => ?_).bind fun _ => reads_answer rfl
      exact (quiet_checkInitializer _ part).bind fun _ => reads_answer rfl
    · exact reads_answer rfl
  refine (quiet_at? ";").bind fun ended => (quiet_at? ")").bind fun closed => ?_
  have hreadUpdate : ∀ test, Reads (Tree.identsOf start ++ Tree.identsOf test) Tree.idents
      (readUpdate test) := by
    refine fun test => (quiet_expect ";").bind fun _ => (quiet_at? ")").bind fun closed => ?_
    extract_lets readBody
    have hreadBody : ∀ update,
        Reads (Tree.identsOf start ++ Tree.identsOf test ++ Tree.identsOf update) Tree.idents
          (readBody update) := by
      refine fun update => (quiet_expect ")").bind fun _ => ?_
      refine reads_optional _ (quiet_report _) fun _ => ?_
      exact (h _ _).bind_append fun body => reads_pure (by simp)
    split
    · exact Reads.bind (reads_answer (by simp)) hreadBody
    · exact (h _ _).bind_append fun update => Reads.bind (reads_answer (by simp)) hreadBody
  split
  · exact Reads.bind (reads_answer (by simp)) hreadUpdate
  · exact (h _ _).bind_append fun test => Reads.bind (reads_answer (by simp)) hreadUpdate

theorem reads_keyLoop
    (h : rules.InOrder)
    (ctx : Context)
    (target : Tree)
    (waits : Bool) :
    Reads target.idents Tree.idents (keyLoop rules ctx target waits) := by
  refine quiet_advance.bind fun _ => (h _ _).bind_append fun object => ?_
  refine (quiet_expect ")").bind fun _ => reads_optional _ (quiet_report _) fun _ => ?_
  exact (h _ _).bind_append fun body => reads_pure (by simp)

theorem reads_itemLoop
    (h : rules.InOrder)
    (ctx : Context)
    (target : Tree) :
    Reads target.idents Tree.idents (itemLoop rules ctx target) := by
  refine quiet_advance.bind fun _ => (h _ _).bind_append fun items => ?_
  refine (quiet_expect ")").bind fun _ => ?_
  exact (h _ _).bind_append fun body => reads_pure (by simp)

theorem reads_declaredLoop
    (h : rules.InOrder)
    (ctx : Context)
    (waits : Bool) :
    Reads [] Tree.idents (declaredLoop rules ctx waits) := by
  refine quiet_token.bind fun here => quiet_advance.bind fun _ => ?_
  refine (reads_declarators h _ _ false).bind fun declared => (quiet_atWord? "in").bind fun found => ?_
  split
  · exact reads_keyLoop h ctx declared waits
  refine (quiet_atWord? "of").bind fun found => ?_
  split
  · exact reads_itemLoop h ctx declared
  · simpa using reads_countedLoop h ctx [declared] waits

theorem reads_expressionLoop
    (h : rules.InOrder)
    (ctx : Context)
    (waits : Bool) :
    Reads [] Tree.idents (expressionLoop rules ctx waits) := by
  refine (quiet_atWord? "async").bind fun isAsync => quiet_token.bind fun here => ?_
  refine (quiet_ahead _).bind fun isOf => ?_
  extract_lets asyncFirst
  refine (h _ _).bind fun first => (quiet_atWord? "in").bind fun found => ?_
  split
  · exact (narrows_toTarget first).reads.bind fun target => reads_keyLoop h ctx target waits
  refine (quiet_atWord? "of").bind fun found => ?_
  split
  · refine reads_optional _ (quiet_report _) fun _ => ?_
    exact (narrows_toTarget first).reads.bind fun target => reads_itemLoop h ctx target
  · simpa using reads_countedLoop h ctx [first] waits

theorem reads_forStatement
    (h : rules.InOrder)
    (ctx : Context) :
    Reads [] Tree.idents (forStatement rules ctx) := by
  refine quiet_advance.bind fun _ => (quiet_atWord? "await").bind fun waits => ?_
  extract_lets loop
  have hloop : ∀ r, Reads [] Tree.idents (loop r) := by
    refine fun _ => (quiet_expect "(").bind fun _ => quiet_token.bind fun here => ?_
    refine reads_ite (reads_countedLoop h ctx [] waits) ?_
    refine reads_ite (reads_declaredLoop h ctx waits) ((quiet_ahead _).bind fun found => ?_)
    refine reads_ite (reads_declaredLoop h ctx waits) ((quiet_ahead _).bind fun found => ?_)
    exact reads_ite (reads_declaredLoop h ctx waits) (reads_expressionLoop h ctx waits)
  split
  · exact reads_optional _ (quiet_report _) fun _ => quiet_advance.bind hloop
  · exact hloop ()

theorem reads_jumpStatement
    (ctx : Context)
    (kind : String) :
    Reads [] Tree.idents (jumpStatement ctx kind) := by
  refine quiet_advance.bind fun _ => quiet_implicitEnd?.bind fun ended => ?_
  split
  · exact quiet_endStatement.bind fun _ => reads_pure (by simp)
  refine quiet_token.bind fun here => ?_
  refine reads_optional _ quiet_unexpected fun _ => quiet_step.bind fun _ => ?_
  exact quiet_endStatement.bind fun _ => reads_pure (by simp)

theorem reads_returnStatement
    (h : rules.InOrder)
    (ctx : Context) :
    Reads [] Tree.idents (returnStatement rules ctx) := by
  refine quiet_advance.bind fun _ => (quiet_eat ";").bind fun found => ?_
  refine quiet_implicitEnd?.bind fun ended => ?_
  extract_lets finish
  have hfinish : ∀ value, Reads (Tree.identsOf value) Tree.idents (finish value) := fun value =>
    reads_optional _ (quiet_report _) fun _ => reads_pure (by simp)
  split
  · exact Reads.bind (reads_answer rfl) hfinish
  split
  · exact Reads.bind (reads_answer rfl) hfinish
  · refine (h _ _).bind fun tree => quiet_endStatement.bind fun _ => ?_
    exact Reads.bind (reads_answer (by simp)) hfinish

theorem reads_withStatement
    (h : rules.InOrder)
    (ctx : Context) :
    Reads [] Tree.idents (withStatement rules ctx) := by
  refine quiet_advance.bind fun _ => (reads_condition h ctx).bind fun object => ?_
  exact (h _ _).bind_append fun body => reads_pure (by simp)

theorem quiet_clauseEnd? : Quiet clauseEnd? := by
  intro before
  refine (quiet_at? "\x7d").bind fun closed => (quiet_atWord? "case").bind fun found => ?_
  exact (quiet_atWord? "default").bind fun isDefault => reads_answer rfl

theorem reads_switchClause
    (h : rules.InOrder)
    (ctx : Context) :
    Reads [] Tree.idents (switchClause rules ctx) := by
  refine (quiet_eatWord "default").bind fun isDefault => ?_
  extract_lets finish
  have hfinish : ∀ test, Reads (Tree.identsOf test) Tree.idents (finish test) := by
    refine fun test => (quiet_expect ":").bind fun _ => ?_
    refine (reads_rowUntil quiet_clauseEnd? (h (.statement false) ctx)).bind_append fun parts => ?_
    exact reads_pure (by simp)
  split
  · exact Reads.bind (reads_answer rfl) hfinish
  refine (quiet_eatWord "case").bind fun found => ?_
  split
  · exact (h _ _).bind fun test => Reads.bind (reads_answer (by simp)) hfinish
  · exact (stops_fail _).bind.reads

theorem reads_switchRound
    (h : rules.InOrder)
    (ctx : Context)
    (read : List Tree) :
    Reads (Tree.identsOf read.reverse)
      (Sum.elim (fun read => Tree.identsOf read.reverse) Tree.identsOf)
      (switchRound rules ctx read) := by
  refine (quiet_at? "\x7d").bind fun closed => ?_
  split
  · exact reads_answer rfl
  · exact (reads_switchClause h ctx).bind_append fun tree => reads_pure (by simp)

theorem reads_switchStatement
    (h : rules.InOrder)
    (ctx : Context) :
    Reads [] Tree.idents (switchStatement rules ctx) := by
  refine quiet_advance.bind fun _ => (reads_condition h ctx).bind fun subject => ?_
  refine (quiet_expect "\x7b").bind fun _ => ?_
  refine (reads_untilDone (reads_switchRound h ctx) []).bind_append fun clauses => ?_
  exact (quiet_expect "\x7d").bind fun _ => reads_pure (by simp)

theorem reads_throwStatement
    (h : rules.InOrder)
    (ctx : Context) :
    Reads [] Tree.idents (throwStatement rules ctx) := by
  refine quiet_advance.bind fun _ => quiet_token.bind fun here => ?_
  refine reads_optional _ (quiet_report _) fun _ => (h _ _).bind fun value => ?_
  exact quiet_endStatement.bind fun _ => reads_pure (by simp)

theorem reads_catchClause
    (h : rules.InOrder)
    (ctx : Context) :
    Reads [] Tree.idents (catchClause rules ctx) := by
  refine quiet_advance.bind fun _ => (quiet_eat "(").bind fun found => ?_
  extract_lets finish
  have hfinish : ∀ parameter, Reads (Tree.identsOf parameter) Tree.idents (finish parameter) :=
    fun parameter => (reads_block h ctx).bind_append fun body => reads_pure (by simp)
  split
  · refine (h _ _).bind fun target => (quiet_expect ")").bind fun _ => ?_
    exact Reads.bind (reads_answer (by simp)) hfinish
  · exact Reads.bind (reads_answer rfl) hfinish

theorem reads_tryStatement
    (h : rules.InOrder)
    (ctx : Context) :
    Reads [] Tree.idents (tryStatement rules ctx) := by
  refine quiet_advance.bind fun _ => (reads_block h ctx).bind fun body => ?_
  refine (quiet_atWord? "catch").bind fun found => ?_
  extract_lets readLast
  have hreadLast : ∀ handler, Reads (body.idents ++ Tree.identsOf handler) Tree.idents
      (readLast handler) := by
    refine fun handler => (quiet_eatWord "finally").bind fun found => ?_
    extract_lets finish
    have hfinish : ∀ last,
        Reads (body.idents ++ Tree.identsOf handler ++ Tree.identsOf last) Tree.idents
          (finish last) := fun last =>
      reads_optional _ (quiet_report _) fun _ => reads_pure (by simp)
    split
    · exact (reads_block h ctx).bind_append fun last => Reads.bind (reads_answer (by simp)) hfinish
    · exact Reads.bind (reads_answer (by simp)) hfinish
  split
  · refine (reads_catchClause h ctx).bind_append fun handler => ?_
    exact Reads.bind (reads_answer (by simp)) hreadLast
  · exact Reads.bind (reads_answer (by simp)) hreadLast

theorem reads_functionStatement
    (h : rules.InOrder)
    (ctx : Context)
    (single : Bool) :
    Reads [] Tree.idents (functionStatement rules ctx single) := by
  refine (reads_functionAny h ctx false true).bind fun tree => ?_
  split
  · split
    · exact (quiet_report _).bind fun _ => reads_answer rfl
    · exact (quiet_report _).bind fun _ => reads_answer rfl
    · exact reads_answer rfl
  · exact reads_answer rfl

theorem reads_classStatement
    (h : rules.InOrder)
    (ctx : Context)
    (single : Bool) :
    Reads [] Tree.idents (classStatement rules ctx single) :=
  (reads_classAny h ctx true).bind fun _ =>
    reads_optional _ (quiet_report _) fun _ => reads_answer rfl

theorem reads_decoratedStatement
    (h : rules.InOrder)
    (ctx : Context)
    (single : Bool) :
    Reads [] Tree.idents (decoratedStatement rules ctx single) := by
  refine (reads_decorators h ctx).bind fun decorated => (quiet_atWord? "class").bind fun found => ?_
  split
  · refine (reads_classStatement h ctx single).bind_append fun tree => reads_pure ?_
    rw [Tree.idents_node, Tree.identsOf_append]
    exact tree.identsOf_parts_sublist.append_left _
  refine (quiet_atWord? "export").bind fun found => ?_
  split
  · exact (reads_exportDeclaration h ctx).bind_append fun tree => reads_pure (by simp)
  · exact stops_unexpected.reads

theorem reads_debuggerStatement : Reads [] Tree.idents debuggerStatement :=
  quiet_advance.bind fun _ => quiet_endStatement.bind fun _ => reads_pure (by simp)

/-! ### Any statement -/

theorem reads_wordStatement
    (h : rules.InOrder)
    (ctx : Context)
    (single : Bool)
    (here : Token) :
    Reads [] Tree.idents (wordStatement rules ctx single here) := by
  unfold wordStatement
  split
  · exact reads_ifStatement h ctx
  · exact reads_doStatement h ctx
  · exact reads_whileStatement h ctx
  · exact reads_forStatement h ctx
  · exact reads_jumpStatement ctx _
  · exact reads_jumpStatement ctx _
  · exact reads_withStatement h ctx
  · exact reads_switchStatement h ctx
  · exact reads_throwStatement h ctx
  · exact reads_tryStatement h ctx
  · exact reads_debuggerStatement
  · exact reads_classStatement h ctx single
  · exact reads_exportDeclaration h ctx
  · exact reads_returnStatement h ctx
  · exact reads_variableStatement h ctx single
  · exact reads_variableStatement h ctx single
  · exact reads_functionStatement h ctx single
  · exact reads_ite (reads_expressionStatement h ctx) (reads_letStatement h ctx single)
  · refine quiet_asyncFunctionAhead?.bind fun found => ?_
    exact reads_ite (reads_functionStatement h ctx single) (reads_expressionStatement h ctx)
  · refine (quiet_ahead _).bind fun found => reads_ite (reads_expressionStatement h ctx) ?_
    exact quiet_advance.bind fun _ => reads_importDeclaration h ctx
  · refine (quiet_ahead _).bind fun found => ?_
    exact reads_ite (reads_variableStatement h ctx single) (reads_expressionStatement h ctx)
  · exact reads_expressionStatement h ctx

theorem reads_statement
    (h : rules.InOrder)
    (ctx : Context)
    (single : Bool) :
    Reads [] Tree.idents (statement rules ctx single) := by
  refine quiet_token.bind fun here => ?_
  split
  · exact reads_wordStatement h ctx single here
  split
  · exact reads_block h ctx
  split
  · exact quiet_advance.bind fun _ => reads_pure (by simp)
  split
  · exact reads_decoratedStatement h ctx single
  · exact reads_expressionStatement h ctx

/-! ### Whole scripts -/

/-- The rule of a goal keeps identifiers in order if the rules for what it contains do. -/
theorem inOrder_ofGoal
    (h : rules.InOrder) :
    (ofGoal rules).InOrder := by
  intro goal ctx
  cases goal with
  | expression =>
      exact reads_expression h ctx
  | assignment =>
      exact reads_assignment h ctx
  | operation level =>
      exact reads_operation h ctx level
  | operand =>
      refine quiet_token.bind fun here => ?_
      exact reads_ite (reads_signedOperand h ctx) (reads_updateExpression h ctx)
  | signedOperand =>
      exact reads_signedOperand h ctx
  | access =>
      exact reads_accessExpression h ctx
  | primary =>
      exact reads_primaryExpression h ctx
  | statement single =>
      exact reads_statement h ctx single
  | pattern =>
      exact reads_bindingPattern h ctx

theorem inOrder_upTo
    (depth : Nat) :
    (upTo depth).InOrder := by
  induction depth with
  | zero =>
      exact fun _ _ => (stops_fail _).reads
  | succ depth ih =>
      exact inOrder_ofGoal ih

theorem reads_program
    (h : rules.InOrder) :
    Reads [] Tree.idents (program rules) := by
  have hends : Quiet (return false : Rule Bool) := fun _ => reads_answer rfl
  exact (reads_rowUntil hends (h _ _)).bind fun parts => reads_pure (by simp)

end Rule

theorem clean_of_fault?_eq_none
    {s : State}
    (h : s.fault? = none) :
    s.Clean := by
  unfold State.fault? at h
  split at h
  case h_4 hlexical hgrammatical _ =>
    exact ⟨hlexical, hgrammatical⟩
  all_goals cases h

/-- The identifiers of a script stand in its text one after the other. -/
theorem ascending_of_parse
    {text : List Char} {tree : Tree}
    (h : parse text = .ok tree) :
    ∃ high, Ascending text 0 tree.idents high := by
  unfold parse at h
  split at h
  · cases h
  · rename_i read t hread
    split at h
    · cases h
    · rename_i hfault
      cases h
      have hclean : t.Clean := clean_of_fault?_eq_none hfault
      obtain ⟨hinitial, hreads⟩ :=
        Rule.reads_program (Rule.inOrder_upTo _) text _ tree t hread hclean
      have hstands := standsIn_initial hinitial.lexical
      exact ⟨_, (hreads hstands 0 (Nat.zero_le _)).2⟩

end Script
end FeatureProbes
