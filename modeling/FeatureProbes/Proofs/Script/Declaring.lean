import FeatureProbes.Script.Shape

/-!
# What setup code declares

The shape of setup code is read off its tree.  Only the variable statements of the script itself
can declare the promise, and only by its name: declarations of functions and of classes do not
count, and neither do statements inside of blocks.  The callback must be bound nowhere, be it as a
variable, as a parameter or as the name of a function.

Text that is no script declares and uses nothing.
-/

namespace FeatureProbes
namespace Script

/-- What the declarators of a variable statement bind, which are names and patterns. -/
def variableTargets : Tree → List Tree
  | .node (.variables _) declarators =>
      declarators.filterMap fun declarator => declarator.parts.head?
  | _ => []

/-- The name of a function. -/
def functionName? : Tree → Option String
  | .node (.functionLike _ _) (.binding id :: _) => some id.name
  | _ => none

namespace Tree

/-- A variable statement of the script itself declares a name, without a pattern around it. -/
def DeclaresVariable
    (tree : Tree)
    (name : String) : Prop :=
  ∃ statement ∈ tree.parts, ∃ id, .binding id ∈ variableTargets statement ∧ id.name = name

/-- A variable statement of the script itself binds a name, by itself or in a pattern. -/
def BindsVariable
    (tree : Tree)
    (name : String) : Prop :=
  ∃ statement ∈ tree.parts, ∃ target ∈ variableTargets statement,
    name ∈ target.bindings.map Ident.name

instance
    (tree : Tree)
    (name : String) :
    Decidable (tree.BindsVariable name) :=
  inferInstanceAs (Decidable (∃ statement ∈ tree.parts, ∃ target ∈ variableTargets statement,
    name ∈ target.bindings.map Ident.name))

/-- A statement of the script itself is a function with a name. -/
def DeclaresFunction
    (tree : Tree)
    (name : String) : Prop :=
  ∃ statement ∈ tree.parts, functionName? statement = some name

instance
    (tree : Tree)
    (name : String) :
    Decidable (tree.DeclaresFunction name) :=
  inferInstanceAs (Decidable (∃ statement ∈ tree.parts, functionName? statement = some name))

/-- A name is used as a variable and bound nowhere in the script. -/
def UsesUnbound
    (tree : Tree)
    (name : String) : Prop :=
  name ∈ tree.references.map Ident.name ∧ name ∉ tree.bindings.map Ident.name

instance
    (tree : Tree)
    (name : String) :
    Decidable (tree.UsesUnbound name) :=
  inferInstanceAs
    (Decidable (name ∈ tree.references.map Ident.name ∧ name ∉ tree.bindings.map Ident.name))

theorem binding?_eq_some_iff
    {tree : Tree} {id : Ident} :
    tree.binding? = some id ↔ tree = .binding id := by
  cases tree <;> simp [binding?]

theorem declaredNames_eq
    (statement : Tree) :
    declaredNames statement =
      (variableTargets statement).filterMap fun target => target.binding?.map Ident.name := by
  fun_cases variableTargets statement with
  | case1 kind declarators =>
      rw [declaredNames, List.filterMap_filterMap]
      congr 1
      funext declarator
      cases declarator.parts.head? <;> rfl
  | case2 =>
      rw [List.filterMap_nil]
      simp_all [declaredNames]

theorem mem_declaredNames_iff
    {statement : Tree} {name : String} :
    name ∈ declaredNames statement ↔
      ∃ id, .binding id ∈ variableTargets statement ∧ id.name = name := by
  rw [declaredNames_eq, List.mem_filterMap]
  constructor
  · rintro ⟨target, htarget, hname⟩
    obtain ⟨id, hid, rfl⟩ := Option.map_eq_some_iff.1 hname
    exact ⟨id, binding?_eq_some_iff.1 hid ▸ htarget, rfl⟩
  · rintro ⟨id, htarget, rfl⟩
    exact ⟨.binding id, htarget, rfl⟩

/-- A name that is declared by itself is bound. -/
theorem DeclaresVariable.bindsVariable
    {tree : Tree} {name : String}
    (h : tree.DeclaresVariable name) :
    tree.BindsVariable name := by
  obtain ⟨statement, hstatement, id, htarget, rfl⟩ := h
  exact ⟨statement, hstatement, .binding id, htarget, by simp [bindings]⟩

end Tree

/-- Code is a script with a property. -/
def IsScriptThat
    (P : Tree → Prop)
    (code : String) : Prop :=
  ∃ tree, parse code.toList = .ok tree ∧ P tree

instance
    (P : Tree → Prop)
    [DecidablePred P]
    (code : String) :
    Decidable (IsScriptThat P code) :=
  match h : parse code.toList with
  | .ok tree =>
      decidable_of_iff (P tree) <| by
        simp [IsScriptThat, h]
  | .error _ =>
      isFalse <| by
        simp [IsScriptThat, h]

/-- Setup code hands its instance over through a promise if it declares one by a variable statement
of its own. -/
theorem promise_ofCode_iff
    {code : String} :
    (Shape.ofCode code).promise ↔ IsScriptThat (·.DeclaresVariable "promise") code := by
  rw [Shape.ofCode, IsScriptThat]
  cases parse code.toList with
  | error fault =>
      simp [Shape.plain]
  | ok tree =>
      simp [Shape.ofTree, Tree.DeclaresVariable, Tree.mem_declaredNames_iff]

/-- Setup code hands its instance over through a callback if it uses one that it binds nowhere. -/
theorem callback_ofCode_iff
    {code : String} :
    (Shape.ofCode code).callback ↔ IsScriptThat (·.UsesUnbound "callback") code := by
  rw [Shape.ofCode, IsScriptThat]
  cases parse code.toList with
  | error fault =>
      simp [Shape.plain]
  | ok tree =>
      simp [Shape.ofTree, Tree.UsesUnbound]

end Script
end FeatureProbes
