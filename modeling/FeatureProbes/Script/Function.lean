import FeatureProbes.Script.Pattern

/-!
# Functions of scripts

Parameters, bodies and names of functions.  The same rule serves declarations, expressions and
methods; arrow functions share the parameters and the body.
-/

namespace FeatureProbes
namespace Script
namespace Rule

/-- The parameters of a function, with their parentheses. -/
def formalParameters (rules : Rules) (ctx : Context) : Rule Tree := do
  expect "("
  let parts ← restListUntil ")" (patternElement rules ctx) (restElement rules ctx)
    .restParameterLast
  expect ")"
  return .node .parameters parts

/-- The statements of a function, with their braces. -/
def functionBody (rules : Rules) (ctx : Context) : Rule Tree := do
  expect "\x7b"
  let parts ← rowUntil (at? "\x7d")
    (rules (.statement false) { ctx with inReturn := true, inDecorator := false })
  expect "\x7d"
  return .node .body parts

/-- The parameters and the body of a function. -/
def functionRest (rules : Rules) (ctx : Context) (isAsync generator : Bool) (name : List Tree) :
    Rule Tree := do
  let inner := { ctx with allowIn := true, inAwait := isAsync, inYield := generator }
  let parameters ← formalParameters rules inner
  if !(← at? "\x7b") then fail .expectedFunctionBody
  let body ← functionBody rules inner
  return .node (.functionLike isAsync generator) (name ++ [parameters, body])

/-- The name of a function; a declaration must have one unless it is a default export. -/
def functionName (ctx : Context) (required : Bool) : Rule (List Tree) := do
  let here ← token
  if here.isIdentifier then
    checkIdentifier ctx here
    return [.binding (← takeIdent)]
  else
    if required then
      if here.isPunctuator "(" then report .expectedFunctionName
      else if here.isReserved then fail (.expectedToken "Identifier" here.describe)
    return []

/-- A function that begins at the word `function` or at the word `async` before it. -/
def functionAny (rules : Rules) (ctx : Context) (expression required : Bool) : Rule Tree := do
  let isAsync ← eatWord "async"
  expectWord "function"
  let generator ← eat "*"
  let nameCtx := if expression then { ctx with inAwait := isAsync, inYield := generator } else ctx
  let name ← functionName nameCtx required
  functionRest rules ctx isAsync generator name

/-- Whether a function begins at the word `async` at hand. -/
def asyncFunctionAhead? : Rule Bool :=
  ahead do
    step
    let next ← token
    return next.isWord "function" && !next.afterNewline

/-- The parts of an accessor or method after its name. -/
def methodRest (rules : Rules) (ctx : Context) (isAsync generator : Bool) : Rule Tree :=
  functionRest rules ctx isAsync generator []

/-- The parameters of a function. -/
def parametersOf (function : Tree) : List Tree :=
  function.parts.flatMap fun part =>
    if part.form? == some .parameters then part.parts else []

/-- Note a fault if a getter has parameters. -/
def checkGetter (function : Tree) : Rule Unit := do
  if !(parametersOf function).isEmpty then report .getterParameters

/-- Note a fault if a setter does not have just one plain parameter. -/
def checkSetter (function : Tree) : Rule Unit := do
  match parametersOf function with
  | [parameter] => if parameter.form? == some .rest then report .setterRest
  | _ => report .setterParameters

/-- Whether the next token can follow a word that modifies a property or class member. -/
def nameAhead? (sameLine : Bool) : Rule Bool :=
  ahead do
    step
    let next ← token
    return (!sameLine || !next.afterNewline) &&
      (next.isPunctuator "[" || next.isPunctuator "\x7b" || next.isPunctuator "*" ||
        next.isPunctuator "..." || next.kind == .word || next.kind == .privateName ||
        next.isNumberOrString)

/-- Go past a word that modifies what follows it, if the word at hand does so. -/
def eatModifier (word : String) (sameLine : Bool) : Rule Bool := do
  if (← atWord? word) && (← nameAhead? sameLine) then
    advance
    return true
  else return false

end Rule
end Script
end FeatureProbes
