import FeatureProbes.Script.Grammar

/-!
# Patterns of scripts

A binding pattern declares variables; an assignment pattern writes to places that are there
already.  A binding pattern is read as such.  An assignment pattern is first read as an expression
and turned into a pattern when the assignment operator after it shows what it is.
-/

namespace FeatureProbes
namespace Script
namespace Rule

/-! ## Binding patterns -/

/-- A default after a binding, if there is one. -/
def withInitializer (rules : Rules) (ctx : Context) (target : Tree) : Rule Tree := do
  if ← eat "=" then
    let value ← rules .assignment { ctx with allowIn := true }
    return .node .withDefault [target, value]
  else return target

/-- A pattern that may have a default. -/
def patternElement (rules : Rules) (ctx : Context) : Rule Tree := do
  withInitializer rules ctx (← rules .pattern ctx)

/-- An element of an array pattern, which may be left out before a comma. -/
def arrayPatternElement (rules : Rules) (ctx : Context) : Rule Tree := do
  if ← at? "," then return .node .hole []
  else patternElement rules ctx

/-- The rest of a pattern, which may not have a default. -/
def restElement (rules : Rules) (ctx : Context) : Rule Tree := do
  advance
  let target ← rules .pattern ctx
  if ← at? "=" then
    report .restInitializer
    advance
    let value ← rules .assignment { ctx with allowIn := true }
    return .node .rest [.node .withDefault [target, value]]
  else return .node .rest [target]

/-- A rest element of an object, which must be a plain variable. -/
def objectRestElement (rules : Rules) (ctx : Context) : Rule Tree := do
  let element ← restElement rules ctx
  if element.parts.all fun part => part.binding?.isNone then report .restPattern
  return element

/-- A property of an object pattern. -/
def bindingProperty (rules : Rules) (ctx : Context) : Rule Tree := do
  let here ← token
  let key ← propertyName rules ctx
  if here.isIdentifier && !(← at? ":") then
    checkIdentifier ctx here
    let name := Tree.binding ⟨here.text, here.start, here.stop⟩
    if ← eat "=" then
      let value ← rules .assignment { ctx with allowIn := true }
      return .node .bindingShorthand [name, value]
    else return .node .bindingShorthand [name]
  else
    expect ":"
    return .node .bindingProperty [key, ← patternElement rules ctx]

/-- A declared variable or a pattern of declared variables. -/
def bindingPattern (rules : Rules) (ctx : Context) : Rule Tree := do
  if ← at? "\x7b" then
    advance
    let parts ← restListUntil "\x7d" (bindingProperty rules ctx) (objectRestElement rules ctx)
      .restElementLast
    expect "\x7d"
    return .node .objectPattern parts
  else if ← at? "[" then
    advance
    let parts ← restListUntil "]" (arrayPatternElement rules ctx) (restElement rules ctx)
      .restElementLast
    expect "]"
    return .node .arrayPattern parts
  else bindingIdentifier ctx

/-! ## Assignment patterns -/

/-- Note that a pattern has taken up the shorthand default at a place. -/
def takeDefault (start : Nat) : Rule Unit :=
  modify fun s => { s with defaults := s.defaults.filter (· != start) }

/-- Whether a tree is an object or array expression. -/
def isLiteralPattern (tree : Tree) : Bool :=
  tree.form? == some .object || tree.form? == some .array

mutual

/-- An expression as the target of an assignment. -/
def toTarget : Tree → Rule Tree
  | .node .array parts => do return .node .arrayTarget (← toElements parts)
  | .node .object parts => do return .node .objectTarget (← toProperties parts)
  | .node .parenthesized [inner] => do
      if isLiteralPattern inner then fail .invalidTarget
      return .node .parenthesized [← toTarget inner]
  | .node .member parts => return .node .member parts
  | .node .computedMember parts => return .node .computedMember parts
  | .reference id => return .reference id
  | _ => fail .invalidTarget

/-- An expression as the target of an element, perhaps with a default. -/
def toElement : Tree → Rule Tree
  | .node (.assignment operator) parts => do
      if operator != "=" then report .invalidDefaultOperator
      return .node .withDefault parts
  | .node .hole _ => return .node .hole []
  | tree => toTarget tree

/-- The elements of an array expression as targets. -/
def toElements : List Tree → Rule (List Tree)
  | [] => return []
  | [.node .spread [inner]] => do return [.node .rest [← toTarget inner]]
  | [.node .spread [inner], .node .trailingComma []] => do
      let target ← toTarget inner
      report .restTrailingComma
      return [.node .rest [target]]
  | .node .spread _ :: _ => fail .spreadLast
  | [.node .trailingComma []] => return []
  | tree :: more => do
      let target ← toElement tree
      return target :: (← toElements more)

/-- A property of an object expression as a target. -/
def toProperty : Tree → Rule Tree
  | .node .shorthand parts => return .node .targetShorthand parts
  | .node (.shorthandDefault start) parts => do
      takeDefault start
      return .node .targetShorthand parts
  | .node .property [key, value] => do
      return .node .targetProperty [key, ← toElement value]
  | _ => fail .invalidTarget

/-- The properties of an object expression as targets. -/
def toProperties : List Tree → Rule (List Tree)
  | [] => return []
  | [.node .spread [inner]] => do return [.node .rest [← toTarget inner]]
  | [.node .spread [inner], .node .trailingComma []] => do
      let target ← toTarget inner
      report .restTrailingComma
      return [.node .rest [target]]
  | .node .spread _ :: _ => fail .spreadLast
  | [.node .trailingComma []] => return []
  | tree :: more => do
      let target ← toProperty tree
      return target :: (← toProperties more)

end

/-- An expression as the target of an operator that takes no patterns. -/
def toSimpleTarget (tree : Tree) : Rule Tree := do
  if isLiteralPattern tree then fail .invalidTarget
  toTarget tree

end Rule
end Script
end FeatureProbes
