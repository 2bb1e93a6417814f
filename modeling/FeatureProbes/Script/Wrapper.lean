import FeatureProbes.Script.Statement
import FeatureProbes.Text.Lines
import FeatureProbes.Text.Quoted

/-!
# Wrapped scripts

A test body is wrapped in a function that calls itself, so it can return its result.  A body that
is no script once it is wrapped is replaced by one that throws the reason.
-/

namespace FeatureProbes
namespace Script

/-- A function around a body, which calls itself. -/
def wrap (body : String) : String :=
  "(function () \x7b\n" ++ String.ofList (Text.indent (Text.trimEnd body.toList)) ++ "\n\x7d)()"

/-- Snippets joined by line feeds, without the blank ones. -/
def join (snippets : List String) : String :=
  String.ofList (Text.joinSnippets (snippets.map String.toList))

/-- A statement that throws a text. -/
def throwing (message : String) : String :=
  "throw " ++ Text.quoted message ++ ";"

/-- Why a text is no script, if it is none. -/
def fault? (code : String) : Option Fault :=
  match parse code.toList with
  | .ok _ => none
  | .error fault => some fault

end Script
end FeatureProbes
