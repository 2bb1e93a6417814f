import FeatureProbes.Script.Statement

/-!
# Shapes of setup snippets

A setup snippet makes the instance that the probes of an interface look at.  It hands the instance
over in one of three ways: as a plain variable, through a promise that it declares, or through a
callback that it passes on without declaring it.
-/

namespace FeatureProbes
namespace Script

/-- How a setup snippet hands its instance over. -/
structure Shape where
  /-- The snippet declares `promise` at its top level. -/
  promise : Bool
  /-- The snippet uses `callback` and declares it nowhere. -/
  callback : Bool
  deriving Repr, DecidableEq

/-- The shape of a snippet that only makes a plain variable. -/
def Shape.plain : Shape := ⟨false, false⟩

/-- The names that a statement declares as variables.  Names inside of patterns are not among
them. -/
def declaredNames (statement : Tree) : List String :=
  match statement with
  | .node (.variables _) declarators =>
      declarators.filterMap fun declarator =>
        (declarator.parts.head?.bind Tree.binding?).map Ident.name
  | _ => []

/-- The shape of a script. -/
def Shape.ofTree (tree : Tree) : Shape where
  promise := (tree.parts.flatMap declaredNames).contains "promise"
  callback :=
    (tree.references.map Ident.name).contains "callback" &&
      !(tree.bindings.map Ident.name).contains "callback"

/-- The shape of a snippet; a text that is no script has the plain one. -/
def Shape.ofCode (code : String) : Shape :=
  match parse code.toList with
  | .ok tree => .ofTree tree
  | .error _ => .plain

end Script
end FeatureProbes
