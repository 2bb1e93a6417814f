import FeatureProbes.Script.Expression

/-!
# Imports and exports of scripts

Declarations that link a script with other scripts.  The names that an import binds are declared
variables; the names that an export lists are uses, unless they come from another script.
-/

namespace FeatureProbes
namespace Script
namespace Rule

/-- The name under which something is linked: a word or a string. -/
def linkedName : Rule Tree := do
  if (← token).kind == .string then tokenLeaf else wordLeaf

/-- The string that names the other script. -/
def linkSource : Rule Tree := do
  if (← token).kind == .string then tokenLeaf else unexpected

/-- A key and its value, behind a source. -/
def linkAttribute (rules : Rules) (ctx : Context) : Rule Tree := do
  let key ← linkedName
  expect ":"
  return .node .property [key, ← rules .assignment ctx]

/-- What stands behind a source in braces, if anything does. -/
def linkAttributes (rules : Rules) (ctx : Context) : Rule (List Tree) := do
  let here ← token
  if here.isWord "with" || (here.isWord "assert" && !here.afterNewline) then
    advance
    expect "\x7b"
    let (parts, _) ← listUntil "\x7d" (linkAttribute rules ctx)
    expect "\x7d"
    return [.node .attributes parts]
  else return []

/-- One name of an import list. -/
def importItem (ctx : Context) : Rule Tree := do
  let here ← token
  let imported ← linkedName
  if ← eatWord "as" then return .node .importItem [imported, ← bindingIdentifier ctx]
  else if here.isIdentifier then
    return .node .importItem [.binding ⟨here.text, here.start, here.stop⟩]
  else if here.isReserved then fail (.reservedWord here.text)
  else unexpected

/-- All names of the other script under one name. -/
def importAll (ctx : Context) : Rule Tree := do
  advance
  expectWord "as"
  return .node .importItem [← bindingIdentifier ctx]

/-- The names of an import in braces. -/
def importList (ctx : Context) : Rule (List Tree) := do
  expect "\x7b"
  let (parts, _) ← listUntil "\x7d" (importItem ctx)
  expect "\x7d"
  return parts

/-- The names after the first name of an import. -/
def importRest (ctx : Context) : Rule (List Tree) := do
  if ← at? "*" then return [← importAll ctx]
  else importList ctx

/-- What an import binds. -/
def importItems (ctx : Context) : Rule (List Tree) := do
  if (← token).isIdentifier then
    let first ← bindingIdentifier ctx
    if ← eat "," then return first :: (← importRest ctx)
    else return [first]
  else importRest ctx

/-- An import, behind its word. -/
def importDeclaration (rules : Rules) (ctx : Context) : Rule Tree := do
  let items ←
    if (← token).kind == .string then pure []
    else do
      let items ← importItems ctx
      expectWord "from"
      pure items
  let source ← linkSource
  let attributes ← linkAttributes rules ctx
  endStatement
  return .node .importDeclaration (items ++ source :: attributes)

/-- Whether the word `import` at hand begins an expression. -/
def importExpressionAhead? : Rule Bool :=
  ahead do
    step
    return (← at? ".") || (← at? "(")

/-- One name of an export list. -/
def exportItem : Rule (Tree × Token) := do
  let here ← token
  let name ← linkedName
  if ← eatWord "as" then return (.node .exportItem [name, ← linkedName], here)
  else return (.node .exportItem [name], here)

/-- One name of an export list, as the use of a variable. -/
def exportItemTree : Rule Tree := do
  let (item, here) ← exportItem
  if here.kind == .word then
    return .node .exportItem
      (.reference ⟨here.text, here.start, here.stop⟩ :: item.parts.drop 1)
  else return item

/-- A tree in which the uses of variables are words. -/
def withoutReference : Tree → Tree
  | .node .exportItem (.reference id :: more) => .node .exportItem (.leaf id.name :: more)
  | tree => tree

/-- Words that an export without another script cannot name. -/
def unexportableWords : List String :=
  reservedWords ++
    ["await", "yield", "implements", "interface", "package", "private", "protected", "public",
      "static"]

/-- Note a fault if an item of an export without another script names no variable. -/
def checkExported (item : Tree) : Rule Unit := do
  match item.parts.head?.bind Tree.reference? with
  | some id => if unexportableWords.contains id.name then report (.reservedWord id.name)
  | none => report .exportedString

/-- An export in braces, perhaps from another script. -/
def exportList (rules : Rules) (ctx : Context) : Rule Tree := do
  expect "\x7b"
  let (parts, _) ← listUntil "\x7d" exportItemTree
  expect "\x7d"
  if ← eatWord "from" then
    let source ← linkSource
    let attributes ← linkAttributes rules ctx
    endStatement
    return .node .exportDeclaration (parts.map withoutReference ++ source :: attributes)
  else
    endStatement
    for item in parts do checkExported item
    return .node .exportDeclaration parts

/-- An export of variables that are declared with `let`.  Nothing else can begin with this word
here. -/
def exportLet (rules : Rules) (ctx : Context) : Rule Tree := do
  if ← letDeclarationAhead? false then rules (.statement false) ctx
  else
    step
    rules .pattern ctx

/-- An export of all names of another script. -/
def exportAll (rules : Rules) (ctx : Context) : Rule Tree := do
  expect "*"
  let names ← if ← eatWord "as" then do pure [← linkedName] else pure []
  expectWord "from"
  let source ← linkSource
  let attributes ← linkAttributes rules ctx
  endStatement
  return .node .exportDeclaration (names ++ source :: attributes)

/-- What is exported as the default: a function, a class or a value. -/
def exportDefault (rules : Rules) (ctx : Context) : Rule Tree := do
  let here ← token
  let isFunction ←
    if here.isWord "async" then asyncFunctionAhead? else pure (here.isWord "function")
  if isFunction then return .node .exportDeclaration [← functionAny rules ctx false false]
  else if here.isWord "class" then return .node .exportDeclaration [← classAny rules ctx false]
  else if here.isPunctuator "@" then
    return .node .exportDeclaration [← decoratedClass rules ctx false]
  else
    let value ← rules .assignment { ctx with allowIn := true }
    endStatement
    return .node .exportDeclaration [value]

/-- An export, from its word on. -/
def exportDeclaration (rules : Rules) (ctx : Context) : Rule Tree := do
  advance
  if ← at? "\x7b" then exportList rules ctx
  else if ← at? "*" then exportAll rules ctx
  else if ← eatWord "default" then exportDefault rules ctx
  else
    let here ← token
    let declares := ["var", "const", "function", "class"].any here.isWord ||
      here.isPunctuator "@" || (here.isWord "async" && (← asyncFunctionAhead?))
    if declares then return .node .exportDeclaration [← rules (.statement false) ctx]
    else if here.isWord "let" then return .node .exportDeclaration [← exportLet rules ctx]
    else unexpected

end Rule
end Script
end FeatureProbes
