import FeatureProbes.Script.Statement

/-!
# Renaming variables

Every use and every declaration of some variables gets a new name.  The tree of the script tells
where these places are; the text is edited only there, so property names, strings, templates and
comments keep their spelling.  A property that is written by its name alone gets its name and the
new variable.
-/

namespace FeatureProbes
namespace Script

/-- A replacement for the characters from one offset to another. -/
structure Edit where
  start : Nat
  stop : Nat
  text : List Char
  deriving Repr, DecidableEq

namespace Edit

/-- The replacement of a variable. -/
def ofIdent (fresh : String) (id : Ident) : Edit :=
  ⟨id.start, id.stop, fresh.toList⟩

/-- The replacement of a property that is written by its name alone. -/
def ofShorthand (fresh : String) (id : Ident) : Edit :=
  ⟨id.start, id.stop, id.name.toList ++ ':' :: ' ' :: fresh.toList⟩

mutual

/-- The edits that rename some variables of a tree. -/
def ofTree (names : List String) (fresh : String) : Tree → List Edit
  | .reference id => if names.contains id.name then [ofIdent fresh id] else []
  | .binding id => if names.contains id.name then [ofIdent fresh id] else []
  | .leaf _ => []
  | .node .shorthand [.reference id] =>
      if names.contains id.name then [ofShorthand fresh id] else []
  | .node .bindingShorthand (.binding id :: more) =>
      if names.contains id.name then [ofShorthand fresh id] else ofTrees names fresh more
  | .node _ parts => ofTrees names fresh parts

/-- The edits that rename some variables of several trees. -/
def ofTrees (names : List String) (fresh : String) : List Tree → List Edit
  | [] => []
  | tree :: more => ofTree names fresh tree ++ ofTrees names fresh more

end

/-- Carry out edits in ascending order on the text from an offset on.  An edit of characters that
are already gone is left out. -/
def applyFrom : Nat → List Char → List Edit → List Char
  | _, text, [] => text
  | offset, text, edit :: more =>
      if edit.start < offset then applyFrom offset text more
      else
        text.take (edit.start - offset) ++ edit.text ++
          applyFrom edit.stop (text.drop (edit.stop - offset)) more

/-- Carry out edits on a text, whatever order they come in. -/
def applyAll (edits : List Edit) (text : List Char) : List Char :=
  applyFrom 0 text (edits.mergeSort fun a b => a.start ≤ b.start)

end Edit

/-- Rename some variables of a script.  A text that is no script stays as it is. -/
def renameVariables (names : List String) (fresh : String) (code : String) : String :=
  match parse code.toList with
  | .ok tree => String.ofList (Edit.applyAll (Edit.ofTree names fresh tree) code.toList)
  | .error _ => code

end Script
end FeatureProbes
