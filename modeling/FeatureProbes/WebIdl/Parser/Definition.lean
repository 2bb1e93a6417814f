import FeatureProbes.WebIdl.Parser.Member

/-!
# Reading definitions

A text is a list of definitions.  Every definition and every member has the line of its first
token after its extended attributes.
-/

namespace FeatureProbes
namespace WebIdl
namespace Parser

/-- The line of the token at hand; past the last token the line does not matter. -/
def here : Parser UInt32 := do
  return UInt32.ofNat (((← get).head?.map Token.line).getD 0)

/-- Whether a block ends at the token at hand; a block must not end with the text. -/
def blockEnds : Parser Bool := do
  if ← atMark "\x7d" then return true
  if (← get).isEmpty then unexpected .bodyEnd
  return false

/-- A member of a block, with its extended attributes and its line. -/
def blockMember (nested : Nested) (item : Parser Member) : Parser Member := do
  let attributes ← nested.attributes
  let line ← here
  let member ← item
  return { member with attributes := attributes, line := line }

/-- The members of a definition. -/
def block (nested : Nested) (item : Parser Member) : Parser (List Member) := do
  expectMark "\x7b"
  let members ← itemsUntil blockEnds (blockMember nested item)
  expectMark "\x7d"
  expectMark ";"
  return members

/-- What a definition inherits from, if it does. -/
def inheritance : Parser (Option String) := do
  if ← eatMark ":" then return some (← identifier) else return none

/-- The values of an enumeration, in braces. -/
def enumValues : Parser (List String) := do
  expectMark "\x7b"
  let values ← commaList "\x7d" stringValue
  expectMark ";"
  return values

/-- A definition that consists of a name and members. -/
def plainBody (nested : Nested) (kind : DefinitionKind) : Parser Definition := do
  let name ← identifier
  let members ← block nested (member nested)
  return { Definition.ofKind kind name with members := members }

/-- A definition that may inherit, behind its word. -/
def inheritingBody (nested : Nested) (kind : DefinitionKind) (item : Parser Member) :
    Parser Definition := do
  let name ← identifier
  let inheritance ← inheritance
  let members ← block nested item
  return { Definition.ofKind kind name with inheritance := inheritance, members := members }

/-- A callback function, behind its word. -/
def callbackFunction (nested : Nested) : Parser Definition := do
  let name ← identifier
  expectMark "="
  let type ← nested.type
  let arguments ← arguments nested
  expectMark ";"
  return { Definition.ofKind .callback name with type := some type, arguments := arguments }

/-- A name for a type, after its keyword. -/
def typedefinition (nested : Nested) : Parser Definition := do
  let type ← nested.type
  let name ← identifier
  expectMark ";"
  return { Definition.ofKind .typedef name with type := some type }

/-- A statement that includes a mixin. -/
def inclusion : Parser Definition := do
  let target ← identifier
  skip
  let mixin ← identifier
  expectMark ";"
  return { Definition.ofKind .includes target with included := some mixin }

/-- A definition that may be partial, if one is at hand. -/
def extensible? (nested : Nested) : Parser (Option Definition) := do
  if ← eatWord "interface" then
    if ← eatWord "mixin" then some <$> plainBody nested .mixin
    else some <$> inheritingBody nested .interface (member nested)
  else if ← eatWord "namespace" then some <$> plainBody nested .nameSpace
  else if ← eatWord "dictionary" then
    some <$> inheritingBody nested .dictionary (field nested)
  else return none

/-- A definition that is never partial and no callback. -/
def inextensible (nested : Nested) : Parser Definition := do
  if ← eatWord "enum" then
    let name ← identifier
    let values ← enumValues
    return { Definition.ofKind .enumeration name with values := values }
  else if ← eatWord "typedef" then typedefinition nested
  else if (← atName) && (← nextIsWord "includes") then inclusion
  else unexpected .definition

/-- A definition, without its extended attributes and line. -/
def definitionBody (nested : Nested) : Parser Definition := do
  if ← eatWord "callback" then
    if ← eatWord "interface" then plainBody nested .callbackInterface
    else callbackFunction nested
  else
    let isPartial ← eatWord "partial"
    match ← extensible? nested with
    | some definition => return { definition with isPartial := isPartial }
    | none => if isPartial then unexpected .partialDefinition else inextensible nested

/-- A definition with its extended attributes and its line. -/
def definition (nested : Nested) : Parser Definition := do
  let attributes ← nested.attributes
  let line ← here
  let definition ← definitionBody nested
  return { definition with attributes := attributes, line := line }

/-- Definitions up to the end of the tokens. -/
def definitions (nested : Nested) : Parser (List Definition) :=
  itemsUntil (do return (← get).isEmpty) (definition nested)

end Parser

/-- The definitions that tokens stand for.  Nothing is nested deeper than there are tokens. -/
def definitionsOfTokens (tokens : List Token) : Except Stop (List Definition) := do
  let (definitions, _) ← Parser.definitions (Nested.level (tokens.length + 1)) tokens
  return definitions

/-- The definitions that a text stands for, or the line and the reason why it stands for none. -/
def parse (text : List Char) : Except (Nat × SyntaxProblem) (List Definition) :=
  match tokens text with
  | .error (line, fault) => .error (line, .lexical fault)
  | .ok (tokens, last) =>
      match definitionsOfTokens tokens with
      | .ok definitions => .ok definitions
      | .error stop => .error (stop.line.getD last, stop.problem)

end WebIdl
end FeatureProbes
