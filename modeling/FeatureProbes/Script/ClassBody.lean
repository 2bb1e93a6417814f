import FeatureProbes.Script.Function

/-!
# Classes of scripts

Declarations and expressions of classes with their members: methods, accessors, fields and static
blocks.
-/

namespace FeatureProbes
namespace Script
namespace Rule

/-- The decorators at hand. -/
def decorators (rules : Rules) (ctx : Context) : Rule (List Tree) :=
  rowUntil (do return !(← at? "@")) do
    advance
    let expression ← rules .access { ctx with inDecorator := true }
    return .node .decorator [expression]

/-- The name of a member, and whether it is the name of the constructor. -/
def memberName (rules : Rules) (ctx : Context) : Rule (Tree × Bool) := do
  let here ← token
  if here.kind == .privateName then
    if here.text == "constructor" then report .privateConstructor
    step
    return (.leaf ("#" ++ here.text), false)
  else
    let key ← propertyName rules ctx
    return (key, (here.kind == .word || here.kind == .string) && here.text == "constructor")

/-- A getter or setter of a class, after its word. -/
def classAccessor (rules : Rules) (ctx : Context) (isStatic getter : Bool) : Rule Tree := do
  let (key, isConstructor) ← memberName rules ctx
  let method ← methodRest rules ctx false false
  if getter then checkGetter method else checkSetter method
  if isConstructor && !isStatic then report .accessorConstructor
  return .node .classMember [key, method]

/-- The value and the end of a field of a class. -/
def classField (rules : Rules) (ctx : Context) (key : Tree) : Rule Tree := do
  if ← eat "=" then
    let value ← rules .assignment { ctx with allowIn := true, inYield := false, inAwait := false }
    endStatement
    return .node .classMember [key, value]
  else
    endStatement
    return .node .classMember [key]

/-- A method or field, whose modifiers have been read. -/
def classMethodOrField (rules : Rules) (ctx : Context) (isStatic isAsync : Bool) :
    Rule Tree := do
  let generator ← eat "*"
  let here ← token
  let (key, isConstructor) ← memberName rules ctx
  if generator || (← at? "(") then
    if isConstructor && !isStatic then
      if generator then report .generatorConstructor
      if isAsync then report .asyncConstructor
    let method ← methodRest rules ctx isAsync generator
    return .node .classMember [key, method]
  else
    if isConstructor then report .constructorField
    if isStatic && (here.kind == .word || here.kind == .string) && here.text == "prototype" then
      report .staticPrototype
    classField rules ctx key

/-- A static block of a class, after its word. -/
def staticBlock (rules : Rules) (ctx : Context) : Rule Tree := do
  expect "\x7b"
  let parts ← rowUntil (at? "\x7d")
    (rules (.statement false)
      { ctx with inAwait := true, inYield := false, inReturn := false, inDecorator := false })
  expect "\x7d"
  return .node .staticBlock parts

/-- Whether a static block begins at the word `static` at hand. -/
def staticBlockAhead? : Rule Bool := do
  if ← atWord? "static" then
    ahead do
      step
      at? "\x7b"
  else return false

/-- A member of a class: a lone semicolon, a static block, an accessor, a method or a field. -/
def classMember (rules : Rules) (ctx : Context) : Rule Tree := do
  if ← eat ";" then return .node .empty []
  let decorated ← decorators rules ctx
  if ← staticBlockAhead? then
    advance
    return ← staticBlock rules ctx
  let isStatic ← eatModifier "static" false
  if ← staticBlockAhead? then
    advance
    return ← staticBlock rules ctx
  let isAccessor ← eatModifier "accessor" true
  let isAsync ← eatModifier "async" true
  let member ←
    if ← eatModifier "get" false then classAccessor rules ctx isStatic true
    else do
      if ← eatModifier "set" false then classAccessor rules ctx isStatic false
      else classMethodOrField rules ctx isStatic (isAsync && !isAccessor)
  return .node .classMember (decorated ++ member.parts)

/-- The superclass, if there is one. -/
def heritage (rules : Rules) (ctx : Context) : Rule (List Tree) := do
  if ← eatWord "extends" then return [← rules .access ctx]
  else return []

/-- A class, at its word. -/
def classAny (rules : Rules) (ctx : Context) (required : Bool) : Rule Tree := do
  expectWord "class"
  let here ← token
  let name ←
    if here.isIdentifier && !here.isWord "implements" then do pure [← bindingIdentifier ctx]
    else pure []
  if required && name.isEmpty then report .expectedClassName
  let parent ← heritage rules ctx
  expect "\x7b"
  let members ← rowUntil (at? "\x7d") (classMember rules { ctx with inDecorator := false })
  expect "\x7d"
  return .node .classLike (name ++ parent ++ members)

end Rule
end Script
end FeatureProbes
