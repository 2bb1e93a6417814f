import FeatureProbes.Proofs.Script.InOrder.Expressions
import FeatureProbes.Script.Linkage

/-!
# Imports and exports read identifiers in order

A name that is linked is read as a word.  Where it stands for a variable, the variable is where the
word was; where an export comes from another script, the words of its list are no variables.
-/

namespace FeatureProbes
namespace Script
namespace Rule

variable {rules : Rules}

/-! ### Linked names -/

/-- A linked name leaves room for an identifier if it is a word. -/
theorem readsFrom_linkedName
    {text : List Char} {s : State}
    (before : List Ident) :
    ReadsFrom text s before (fun tree => before ++ wordIdents s.token ++ tree.idents)
      linkedName := by
  refine (quiet_token before text s).bind fun here t hhere => ?_
  cases hhere
  split
  · rename_i hstring
    refine readsFrom_tokenLeaf before fun hword => ?_
    simp [hword] at hstring
  · exact readsFrom_wordLeaf before

theorem reads_linkedName : Reads [] Tree.idents linkedName :=
  fun _ _ => (readsFrom_linkedName []).mono (.refl []) fun _ => List.sublist_append_right _ _

theorem reads_linkSource : Reads [] Tree.idents linkSource := by
  refine quiet_token.bind fun here => ?_
  split
  · exact reads_tokenLeaf
  · exact stops_unexpected.reads

theorem reads_linkAttribute
    (h : rules.InOrder)
    (ctx : Context) :
    Reads [] Tree.idents (linkAttribute rules ctx) := by
  refine reads_linkedName.bind fun key => (quiet_expect ":").bind fun _ => ?_
  exact (h _ _).bind_append fun value => reads_pure (by simp)

theorem reads_linkAttributes
    (h : rules.InOrder)
    (ctx : Context) :
    Reads [] Tree.identsOf (linkAttributes rules ctx) := by
  refine quiet_token.bind fun here => ?_
  split
  · refine quiet_advance.bind fun _ => (quiet_expect "\x7b").bind fun _ => ?_
    refine (reads_listUntil "\x7d" (reads_linkAttribute h ctx)).bind fun list => ?_
    exact (quiet_expect "\x7d").bind fun _ => reads_pure (by simp)
  · exact reads_pure (by simp)

/-! ### Imports -/

theorem reads_importItem
    (ctx : Context) :
    Reads [] Tree.idents (importItem ctx) := by
  intro text s
  refine (quiet_token [] text s).bind fun here t hhere => ?_
  cases hhere
  refine (readsFrom_linkedName []).bind fun imported t _ => ?_
  refine (quiet_eatWord "as").bind (fun renamed => ?_) text t
  split
  · exact (reads_bindingIdentifier ctx).bind_append fun name => reads_pure (by simp)
  split
  · rename_i hidentifier
    exact reads_pure (by simp [wordIdents_of_isIdentifier hidentifier, Token.ident])
  split
  · exact (stops_fail _).reads
  · exact stops_unexpected.reads

theorem reads_importAll
    (ctx : Context) :
    Reads [] Tree.idents (importAll ctx) := by
  refine quiet_advance.bind fun _ => (quiet_expectWord "as").bind fun _ => ?_
  exact (reads_bindingIdentifier ctx).bind fun name => reads_pure (by simp)

theorem reads_importList
    (ctx : Context) :
    Reads [] Tree.identsOf (importList ctx) := by
  refine (quiet_expect "\x7b").bind fun _ => ?_
  refine (reads_listUntil "\x7d" (reads_importItem ctx)).bind fun list => ?_
  exact (quiet_expect "\x7d").bind fun _ => reads_answer rfl

theorem reads_importRest
    (ctx : Context) :
    Reads [] Tree.identsOf (importRest ctx) := by
  refine (quiet_at? "*").bind fun star => ?_
  split
  · exact (reads_importAll ctx).bind fun name => reads_pure (by simp)
  · exact reads_importList ctx

theorem reads_importItems
    (ctx : Context) :
    Reads [] Tree.identsOf (importItems ctx) := by
  refine quiet_token.bind fun here => ?_
  split
  · refine (reads_bindingIdentifier ctx).bind fun first => (quiet_eat ",").bind fun comma => ?_
    split
    · exact (reads_importRest ctx).bind_append fun items => reads_pure (by simp)
    · exact reads_pure (by simp)
  · exact reads_importRest ctx

theorem reads_importDeclaration
    (h : rules.InOrder)
    (ctx : Context) :
    Reads [] Tree.idents (importDeclaration rules ctx) := by
  refine quiet_token.bind fun here => ?_
  extract_lets finish
  have hfinish : ∀ items, Reads (Tree.identsOf items) Tree.idents (finish items) := by
    refine fun items => reads_linkSource.bind_append fun source => ?_
    refine (reads_linkAttributes h ctx).bind_append fun attributes => ?_
    exact quiet_endStatement.bind fun _ => reads_pure (by simp)
  split
  · exact Reads.bind (reads_answer rfl) hfinish
  · refine (reads_importItems ctx).bind fun items => (quiet_expectWord "from").bind fun _ => ?_
    exact Reads.bind (reads_answer rfl) hfinish

/-! ### Exports -/

/-- An item of an export leaves room for an identifier if its name is a word. -/
theorem reads_exportItem :
    Reads [] (fun item => wordIdents item.2 ++ item.1.idents) exportItem := by
  intro text s
  refine (quiet_token [] text s).bind fun here t hhere => ?_
  cases hhere
  refine (readsFrom_linkedName []).bind fun name t _ => ?_
  refine (quiet_eatWord "as").bind (fun renamed => ?_) text t
  split
  · exact reads_linkedName.bind_append fun exported => reads_pure (by simp)
  · exact reads_pure (by simp)

theorem reads_exportItemTree : Reads [] Tree.idents exportItemTree := by
  refine reads_exportItem.bind fun (item, here) => ?_
  dsimp only
  split
  · rename_i hword
    have hword : wordIdents here = [here.ident] := if_pos (by simpa using hword)
    refine reads_pure ?_
    rw [hword, Tree.idents_node, Tree.identsOf_cons, Tree.idents_reference]
    refine List.Sublist.append_left ?_ [here.ident]
    exact (Tree.identsOf_sublist (List.drop_sublist 1 _)).trans item.identsOf_parts_sublist
  · exact reads_pure (List.sublist_append_right _ _)

theorem idents_withoutReference_sublist
    (tree : Tree) :
    (withoutReference tree).idents.Sublist tree.idents := by
  unfold withoutReference
  split
  · simp
  · exact .refl _

theorem identsOf_map_withoutReference_sublist
    (trees : List Tree) :
    (Tree.identsOf (trees.map withoutReference)).Sublist (Tree.identsOf trees) := by
  induction trees with
  | nil =>
      exact .refl _
  | cons tree trees ih =>
      exact (idents_withoutReference_sublist tree).append ih

theorem quiet_checkExported
    (item : Tree) :
    Quiet (checkExported item) := by
  intro before
  unfold checkExported
  split
  · exact reads_optional _ (quiet_report _) fun _ => reads_answer rfl
  · exact quiet_report _ before

theorem reads_exportList
    (h : rules.InOrder)
    (ctx : Context) :
    Reads [] Tree.idents (exportList rules ctx) := by
  refine (quiet_expect "\x7b").bind fun _ => ?_
  refine (reads_listUntil "\x7d" reads_exportItemTree).bind fun list => ?_
  refine (quiet_expect "\x7d").bind fun _ => (quiet_eatWord "from").bind fun found => ?_
  split
  · refine reads_linkSource.bind_append fun source => ?_
    refine (reads_linkAttributes h ctx).bind_append fun attributes => ?_
    refine quiet_endStatement.bind fun _ => reads_pure ?_
    have hparts := identsOf_map_withoutReference_sublist list.1
    simpa using hparts.append_right (source.idents ++ Tree.identsOf attributes)
  · refine quiet_endStatement.bind fun _ => ?_
    refine (quiet_forIn fun item _ before => ?_).bind fun _ => reads_pure (by simp)
    exact (quiet_checkExported item).bind fun _ => reads_answer rfl

theorem reads_exportLet
    (h : rules.InOrder)
    (ctx : Context) :
    Reads [] Tree.idents (exportLet rules ctx) := by
  refine (quiet_ahead _).bind fun found => ?_
  split
  · exact h _ _
  · exact quiet_step.bind fun _ => h _ _

theorem reads_exportAll
    (h : rules.InOrder)
    (ctx : Context) :
    Reads [] Tree.idents (exportAll rules ctx) := by
  refine (quiet_expect "*").bind fun _ => (quiet_eatWord "as").bind fun found => ?_
  extract_lets finish
  have hfinish : ∀ names, Reads (Tree.identsOf names) Tree.idents (finish names) := by
    refine fun names => (quiet_expectWord "from").bind fun _ => ?_
    refine reads_linkSource.bind_append fun source => ?_
    refine (reads_linkAttributes h ctx).bind_append fun attributes => ?_
    exact quiet_endStatement.bind fun _ => reads_pure (by simp)
  split
  · exact reads_linkedName.bind fun name => Reads.bind (reads_answer (by simp)) hfinish
  · exact Reads.bind (reads_answer rfl) hfinish

theorem reads_exportDefault
    (h : rules.InOrder)
    (ctx : Context) :
    Reads [] Tree.idents (exportDefault rules ctx) := by
  refine quiet_token.bind fun here => ?_
  extract_lets go
  have hgo : ∀ isFunction, Reads [] Tree.idents (go isFunction) := by
    intro isFunction
    dsimp only [go]
    split
    · exact (reads_functionAny h ctx false false).bind fun tree => reads_pure (by simp)
    split
    · exact (reads_classAny h ctx false).bind fun tree => reads_pure (by simp)
    split
    · exact (reads_decoratedClass h ctx false).bind fun tree => reads_pure (by simp)
    · refine (h _ _).bind fun value => ?_
      exact quiet_endStatement.bind fun _ => reads_pure (by simp)
  split
  · exact quiet_asyncFunctionAhead?.bind hgo
  · exact Reads.bind (reads_answer rfl) hgo

theorem reads_exportDeclaration
    (h : rules.InOrder)
    (ctx : Context) :
    Reads [] Tree.idents (exportDeclaration rules ctx) := by
  refine quiet_advance.bind fun _ => (quiet_at? "\x7b").bind fun brace => ?_
  split
  · exact reads_exportList h ctx
  refine (quiet_at? "*").bind fun star => ?_
  split
  · exact reads_exportAll h ctx
  refine (quiet_eatWord "default").bind fun isDefault => ?_
  split
  · exact reads_exportDefault h ctx
  refine quiet_token.bind fun here => quiet_asyncFunctionAhead?.bind fun isFunction => ?_
  extract_lets declares
  split
  · exact (h _ _).bind fun tree => reads_pure (by simp)
  split
  · exact (reads_exportLet h ctx).bind fun tree => reads_pure (by simp)
  · exact stops_unexpected.reads

end Rule
end Script
end FeatureProbes
