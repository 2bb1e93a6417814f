import FeatureProbes.Catalog.Basic
import FeatureProbes.Diagnostics
import FeatureProbes.Script.Rename
import FeatureProbes.Script.Shape
import FeatureProbes.Script.Wrapper

/-!
# Imports

Code may contain import tokens, which name the path of a node and a variable.  A token stands for
the setup code of the node, whose own tokens are expanded first, with its instance in the variable.
A token for a node without setup code is noted and replaced by code that throws.

The nodes whose code is being expanded form a chain.  A token for one of them would never end, so
it is an error.
-/

namespace FeatureProbes
namespace Catalog

/-- An import token. -/
structure ImportToken where
  target : List Char
  variableName : List Char
  deriving Repr, DecidableEq

/-- How a token is written. -/
def ImportToken.spelling (token : ImportToken) : List Char :=
  '<' :: '%' :: (token.target ++ ':' :: (token.variableName ++ ['%', '>']))

/-- The characters of paths in tokens. -/
def isPathChar (c : Char) : Bool :=
  c.isAlphanum || ['_', '$', '@', '.', '-'].contains c

/-- Characters that a variable in a token may begin with. -/
def isVariableStart (c : Char) : Bool :=
  c.isAlpha || c == '_' || c == '$'

/-- The characters of variables in tokens. -/
def isVariablePart (c : Char) : Bool :=
  c.isAlphanum || c == '_' || c == '$'

/-- The token that a text begins with. -/
def tokenAt? (text : List Char) : Option ImportToken :=
  match text with
  | '<' :: '%' :: rest =>
      let target := rest.takeWhile isPathChar
      match target, rest.dropWhile isPathChar with
      | _ :: _, ':' :: rest =>
          let name := rest.takeWhile isVariablePart
          match name, rest.dropWhile isVariablePart with
          | first :: _, '%' :: '>' :: _ =>
              if isVariableStart first then some ⟨target, name⟩ else none
          | _, _ => none
      | _, _ => none
  | _ => none

/-- A piece of code. -/
inductive Piece where
  | char (c : Char)
  | token (token : ImportToken)
  deriving Repr, DecidableEq

/-- The pieces of a text after some characters of it, which belong to a token. -/
def piecesAfter : Nat → List Char → List Piece
  | _, [] => []
  | skipped + 1, _ :: rest => piecesAfter skipped rest
  | 0, c :: rest =>
      match tokenAt? (c :: rest) with
      | some token => .token token :: piecesAfter (token.spelling.length - 1) rest
      | none => .char c :: piecesAfter 0 rest

/-- The pieces of code: tokens, as far left as they are, and the characters between them. -/
def pieces (code : String) : List Piece :=
  piecesAfter 0 code.toList

/-- The tokens of a code, from left to right. -/
def importTokens (code : String) : List ImportToken :=
  (pieces code).filterMap fun piece =>
    match piece with
    | .token token => some token
    | .char _ => none

/-- The variables of setup code that take the name in a token. -/
def instanceVariables : List String := ["instance", "promise"]

/-- Code that ends a test if a variable has no value. -/
def falsyGuard (name : String) : String :=
  "\nif (!" ++ name ++ ") \x7b\n  return \x7bresult: false, message: " ++
    Text.quoted (name ++ " is falsy") ++ "\x7d;\n\x7d"

/-- Setup code with its instance in a variable. -/
def bindInstance (imported name : String) : String :=
  let code := Script.renameVariables instanceVariables name imported
  if instanceVariables.contains name || (Script.Shape.ofCode imported).callback then code
  else code ++ falsyGuard name

/-- What is noted about a token for a node without setup code. -/
def invalidImportMessage (token : ImportToken) : String :=
  "Test is malformed: " ++ String.ofList token.spelling ++ " is an invalid import reference"

/-- Expand the tokens of code that belongs to the node in front of a chain, with chains at most as
much longer as given. -/
def expandWithin (catalog : Catalog) : Nat → List String → String → Reporting String
  | 0, chain, _ => throw (.cyclicImport (chain.headD "") chain.reverse)
  | depth + 1, chain, code => do
      let parts ← (pieces code).mapM fun piece =>
        match piece with
        | .char c => pure [c]
        | .token token => do
            let target := String.ofList token.target
            if chain.contains target then
              throw (BuildError.cyclicImport target chain.reverse)
            match catalog.base? target with
            | none =>
                let message := invalidImportMessage token
                Reporting.report "P-DIAG-IMPORT" (chain.headD "") message
                return (Script.throwing message).toList
            | some base =>
                let imported ← expandWithin catalog depth (target :: chain) base
                return (bindInstance imported (String.ofList token.variableName)).toList
      return String.ofList parts.flatten

/-- Expand the tokens of code that belongs to the node at a path.  The nodes of a chain differ, so
no chain is longer than there are nodes. -/
def expand (catalog : Catalog) (origin code : String) : Reporting String :=
  expandWithin catalog (catalog.root.size + 1) [origin] code

end Catalog
end FeatureProbes
