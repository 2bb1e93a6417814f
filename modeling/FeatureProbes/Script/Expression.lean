import FeatureProbes.Script.ClassBody

/-!
# Expressions of scripts

From the innermost rule to the outermost: literals, names and everything in brackets; calls and
member accesses; signs and updates; operators by their level; conditionals, assignments and arrow
functions; and expressions separated by commas.
-/

namespace FeatureProbes
namespace Script
namespace Rule

/-! ## Templates -/

/-- A piece of a template; only a tagged template may have escapes without a meaning. -/
def templatePiece (isTagged : Bool) : Rule Tree := do
  let here ← token
  if !isTagged && here.badEscape then report .invalidEscape
  step
  return .leaf here.text

/-- Read the token at hand again, as the piece that follows a substitution. -/
def resumeTemplate : Rule Unit := do
  if ← at? "\x7d" then
    replaceToken (readTemplate false '\x7d' (← get).rest)

/-- One substitution of a template and the piece after it. -/
def substitutionRound (rules : Rules) (ctx : Context) (isTagged : Bool) (read : List Tree) :
    Rule (List Tree ⊕ List Tree) := do
  let value ← rules .expression { ctx with allowIn := true }
  resumeTemplate
  match (← token).kind with
  | .template false closes =>
      let piece ← templatePiece isTagged
      let next := piece :: value :: read
      return if closes then .inr next.reverse else .inl next
  | _ => fail (.expectedToken "\x7d" (← token).describe)

/-- A template with its substitutions. -/
def template (rules : Rules) (ctx : Context) (isTagged : Bool) : Rule Tree := do
  let whole := (← token).kind == .template true true
  let piece ← templatePiece isTagged
  if whole then return .node .template [piece]
  else return .node .template (← untilDone (substitutionRound rules ctx isTagged) [piece])

/-! ## Arrays and objects -/

/-- An expression after three dots. -/
def spread (rules : Rules) (ctx : Context) : Rule Tree := do
  advance
  return .node .spread [← rules .assignment ctx]

/-- An argument of a call. -/
def argument (rules : Rules) (ctx : Context) : Rule Tree := do
  if ← at? "..." then spread rules ctx else rules .assignment ctx

/-- The arguments of a call, with their parentheses. -/
def arguments (rules : Rules) (ctx : Context) : Rule (List Tree) := do
  expect "("
  let (parts, _) ← listUntil ")" (argument rules ctx.bracketed)
  expect ")"
  return parts

/-- The mark of a comma after the last item. -/
def trailingMark (trailing : Bool) : List Tree :=
  if trailing then [.node .trailingComma []] else []

/-- An element of an array, which may be left out before a comma. -/
def arrayElement (rules : Rules) (ctx : Context) : Rule Tree := do
  if ← at? "," then return .node .hole []
  else argument rules ctx

/-- An array, from its opening bracket on. -/
def array (rules : Rules) (ctx : Context) : Rule Tree := do
  advance
  let (parts, trailing) ← listUntil "]" (arrayElement rules { ctx with allowIn := true })
  expect "]"
  return .node .array (parts ++ trailingMark trailing)

/-- A property of an object whose name is the word at hand and also its value. -/
def shorthandProperty (rules : Rules) (ctx : Context) (name : Token) : Rule Tree := do
  checkIdentifier ctx name
  let value := Tree.reference ⟨name.text, name.start, name.stop⟩
  if ← eat "=" then
    modify fun s => { s with defaults := s.defaults ++ [name.start] }
    let initial ← rules .assignment { ctx with allowIn := true }
    return .node (.shorthandDefault name.start) [value, initial]
  else return .node .shorthand [value]

/-- A part of an object: a spread, an accessor, a method, or a property with or without a value. -/
def objectProperty (rules : Rules) (ctx : Context) : Rule Tree := do
  if ← at? "..." then return ← spread rules ctx
  let isAsync ← eatModifier "async" true
  if ← eatModifier "get" false then
    let key ← propertyName rules ctx
    let method ← methodRest rules ctx false false
    checkGetter method
    return .node .accessor [key, method]
  if ← eatModifier "set" false then
    let key ← propertyName rules ctx
    let method ← methodRest rules ctx false false
    checkSetter method
    return .node .accessor [key, method]
  let generator ← eat "*"
  let here ← token
  if here.kind == .privateName then
    report .privateKeyInObject
  let key ← if here.kind == .privateName then tokenLeaf else propertyName rules ctx
  if generator || (← at? "(") then
    return .node .method [key, ← methodRest rules ctx isAsync generator]
  if here.isIdentifier && !(← at? ":") then shorthandProperty rules ctx here
  else
    expect ":"
    return .node .property [key, ← rules .assignment ctx]

/-- An object, from its opening brace on. -/
def object (rules : Rules) (ctx : Context) : Rule Tree := do
  advance
  let (parts, trailing) ← listUntil "\x7d" (objectProperty rules { ctx with allowIn := true })
  expect "\x7d"
  return .node .object (parts ++ trailingMark trailing)

/-! ## Primary expressions -/

/-- An expression in parentheses. -/
def parenthesized (rules : Rules) (ctx : Context) : Rule Tree := do
  advance
  let (parts, trailing) ← listUntil ")" (rules .assignment ctx.bracketed)
  if trailing then fail .parenthesesTrailingComma
  expect ")"
  match parts with
  | [] => fail .emptyParentheses
  | [part] => return .node .parenthesized [part]
  | parts => return .node .parenthesized [.node .sequence parts]

/-- The arguments of a dynamic import: a specifier, and options if there is a second one. -/
def importCall (rules : Rules) (ctx : Context) : Rule Tree := do
  expect "("
  if ← eat ")" then fail .importWithoutSpecifier
  let specifier ← rules .assignment ctx.bracketed
  let options ←
    if (← eat ",") && !(← at? ")") then
      do pure [← rules .assignment ctx.bracketed]
    else pure []
  if ← at? "," then advance
  if !(← eat ")") then fail .importArguments
  return .node .importCall (specifier :: options)

/-- An expression that begins with the word `import`. -/
def importExpression (rules : Rules) (ctx : Context) : Rule Tree := do
  advance
  if ← eat "." then
    if ← eatWord "meta" then return .node .metaProperty [.leaf "import", .leaf "meta"]
    else if ← eatWord "source" then importCall rules ctx
    else if ← eatWord "defer" then importCall rules ctx
    else fail .importMetaProperty
  else if ← at? "(" then importCall rules ctx
  else unexpected

/-- The word `super`, which must be called or accessed. -/
def superWord : Rule Tree := do
  advance
  if !((← at? ".") || (← at? "[") || (← at? "(")) then report .bareSuper
  return .leaf "super"

/-- A regular expression, at the slash that opens it. -/
def regularExpression : Rule Tree := do
  let here ← token
  replaceToken (readRegularExpression here.text.toList (← get).rest)
  tokenLeaf

/-- A class behind its decorators. -/
def decoratedClass (rules : Rules) (ctx : Context) (required : Bool) : Rule Tree := do
  let decorated ← decorators rules ctx
  if !(← atWord? "class") then unexpected
  let declared ← classAny rules ctx required
  return .node .classLike (decorated ++ declared.parts)

/-- Loop over member accesses: the tree so far, and whether it has an optional access. -/
structure Access where
  tree : Tree
  optional : Bool

/-- Whether a member access follows the optional access mark at hand. -/
def optionalMemberAhead? : Rule Bool := do
  if ← at? "?." then
    ahead do
      step
      let next ← token
      return next.kind == .word || next.kind == .privateName || next.isPunctuator "[" ||
        next.opensTemplate
  else return false

/-- A property name after a point. -/
def accessedName : Rule Tree := do
  let here ← token
  if here.kind == .privateName then
    step
    return .leaf ("#" ++ here.text)
  else wordLeaf

/-- One further access, if there is one, to what has been read. -/
def memberRound (rules : Rules) (ctx : Context) (access : Access) : Rule (Access ⊕ Access) := do
  let optional ← optionalMemberAhead?
  if optional then advance
  let access := { access with optional := access.optional || optional }
  let here ← token
  let dotted ←
    if optional then pure (here.kind == .word || here.kind == .privateName) else eat "."
  if dotted then
    return .inl { access with tree := .node .member [access.tree, ← accessedName] }
  else if (optional || !ctx.inDecorator) && here.isPunctuator "[" then
    advance
    let key ← rules .expression { ctx with allowIn := true }
    expect "]"
    return .inl { access with tree := .node .computedMember [access.tree, key] }
  else if here.opensTemplate then
    let quoted ← template rules ctx true
    if access.optional then report .taggedTemplateInChain
    return .inl { access with tree := .node .tagged [access.tree, quoted] }
  else return .inr access

/-- As many accesses as follow, without calls. -/
def memberAccesses (rules : Rules) (ctx : Context) (access : Access) : Rule Access :=
  untilDone (memberRound rules ctx) access

/-- Accesses and then a call, if there is one. -/
def callRound (rules : Rules) (ctx : Context) (access : Access) : Rule (Access ⊕ Access) := do
  let access ← memberAccesses rules ctx access
  let optional ← eat "?."
  let access := { access with optional := access.optional || optional }
  if ← at? "(" then
    let parts ← arguments rules ctx
    return .inl { access with tree := .node .call (access.tree :: parts) }
  else if optional then fail .unexpectedToken
  else return .inr access

/-- Calls and member accesses. -/
def accessExpression (rules : Rules) (ctx : Context) : Rule Tree := do
  let first ← rules .primary ctx
  let access ← untilDone (callRound rules ctx) ⟨first, false⟩
  if access.optional then return .node .chain [access.tree] else return access.tree

/-- An expression that begins with the word `new`. -/
def newExpression (rules : Rules) (ctx : Context) : Rule Tree := do
  advance
  if ← eat "." then
    if ← eatWord "target" then return .node .metaProperty [.leaf "new", .leaf "target"]
    else fail .newMetaProperty
  else
    let first ← rules .primary ctx
    let callee ← memberAccesses rules ctx ⟨first, false⟩
    if callee.tree.form? == some .importCall then report .importInNew
    let optional := callee.optional || (← at? "?.")
    let parts ← if ← at? "(" then arguments rules ctx else pure []
    if optional then report .chainInNew
    return .node .new (callee.tree :: parts)

/-- The primary expression that begins with the word at hand. -/
def wordExpression (rules : Rules) (ctx : Context) (here : Token) : Rule Tree := do
  match here.text with
  | "this" | "null" | "true" | "false" => tokenLeaf
  | "function" => functionAny rules ctx true false
  | "class" => classAny rules ctx false
  | "new" => newExpression rules ctx
  | "super" => superWord
  | "import" => importExpression rules ctx
  | "async" =>
      if ← asyncFunctionAhead? then functionAny rules ctx true false
      else identifierReference ctx
  | _ => identifierReference ctx

/-- The primary expression that begins with the punctuator at hand. -/
def markedExpression (rules : Rules) (ctx : Context) (here : Token) : Rule Tree :=
  match here.text with
  | "(" => parenthesized rules ctx
  | "[" => array rules ctx
  | "\x7b" => object rules ctx
  | "/" | "/=" => regularExpression
  | "@" => decoratedClass rules ctx false
  | _ => unexpected

/-- What calls and member accesses begin with. -/
def primaryExpression (rules : Rules) (ctx : Context) : Rule Tree := do
  let here ← token
  match here.kind with
  | .word => wordExpression rules ctx here
  | .punctuator => markedExpression rules ctx here
  | .number _ | .string => tokenLeaf
  | .template true _ => template rules ctx false
  | _ => unexpected

/-! ## Signs and updates -/

/-- Operators before their operand. -/
def isSign (here : Token) : Bool :=
  match here.kind with
  | .punctuator => ["+", "-", "!", "~"].contains here.text
  | .word => ["typeof", "void", "delete"].contains here.text
  | _ => false

/-- Operators that change their operand. -/
def isUpdate (here : Token) : Bool :=
  here.isPunctuator "++" || here.isPunctuator "--"

/-- Whether a word, number or string follows the token at hand on its line. -/
def operandAhead? : Rule Bool :=
  ahead do
    step
    let next ← token
    return !next.afterNewline && (next.kind == .word || next.isNumberOrString)

/-- An update of a place, before or after it, or what calls and member accesses give. -/
def updateExpression (rules : Rules) (ctx : Context) : Rule Tree := do
  let here ← token
  if isUpdate here then
    advance
    let target ← toSimpleTarget (← rules .operand ctx)
    return .node (.update here.text) [target]
  else
    let operand ← rules .access ctx
    let next ← token
    if isUpdate next && !next.afterNewline then
      advance
      let target ← toSimpleTarget operand
      return .node (.update next.text) [target]
    else return operand

/-- Waiting for a value. -/
def awaitExpression (rules : Rules) (ctx : Context) : Rule Tree := do
  if !ctx.inAwait then report .awaitOutsideAsync
  advance
  return .node .await [← rules .signedOperand { ctx with inAwait := true }]

/-- An operand that may follow a sign. -/
def signedOperand (rules : Rules) (ctx : Context) : Rule Tree := do
  let here ← token
  if isSign here then
    advance
    return .node (.unary here.text) [← rules .signedOperand ctx]
  else if here.isWord "await" && (ctx.inAwait || (← operandAhead?)) then
    awaitExpression rules ctx
  else updateExpression rules ctx

/-! ## Operators -/

/-- The level of an operator between two operands; a higher level binds tighter. -/
def operatorLevel? (here : Token) : Option Nat :=
  match here.kind with
  | .word => if here.text == "in" || here.text == "instanceof" then some 8 else none
  | .punctuator =>
      match here.text with
      | "??" => some 1
      | "||" => some 2
      | "&&" => some 3
      | "|" => some 4
      | "^" => some 5
      | "&" => some 6
      | "==" | "!=" | "===" | "!==" => some 7
      | "<" | ">" | "<=" | ">=" => some 8
      | "<<" | ">>" | ">>>" => some 9
      | "+" | "-" => some 10
      | "*" | "/" | "%" => some 11
      | "**" => some 12
      | _ => none
  | _ => none

/-- Put together the token that begins with the right angle bracket at hand. -/
def joinRightAngles : Rule Unit := do
  if ← at? ">" then
    let text := '>' :: (← get).rest
    match leading? rightAngles text with
    | some mark => replaceToken (.plain .punctuator mark.toList (text.drop mark.length))
    | none => return

/-- Whether a tree is a conjunction or disjunction. -/
def isAndOr (tree : Tree) : Bool :=
  tree.form? == some (.logical "&&") || tree.form? == some (.logical "||")

/-- Whether a tree joins two conditions. -/
def isLogical (tree : Tree) : Bool :=
  isAndOr tree || tree.form? == some (.logical "??")

/-- Note a fault if a default for a missing value is mixed with another condition. -/
def checkCoalesce (left right : Tree) (leftBracket rightBracket : Bool) : Rule Unit := do
  let mixed :=
    if isLogical right && !rightBracket then isAndOr right
    else isLogical left && !leftBracket && isAndOr left
  if mixed then report .mixedCoalesce

/-- Whether a tree has a sign that a power does not take without parentheses. -/
def isSigned (tree : Tree) : Bool :=
  match tree.form? with
  | some (.unary _) => true
  | some .await => true
  | _ => false

/-- One further operator with its right operand, if its level is high enough. -/
def operationRound (rules : Rules) (ctx : Context) (level : Nat) (leftBracket : Bool)
    (left : Tree) : Rule (Tree ⊕ Tree) := do
  joinRightAngles
  let here ← token
  match operatorLevel? here with
  | none => return .inr left
  | some found =>
      if (if here.text == "**" then found < level else found ≤ level) then return .inr left
      else if here.isWord "in" && !ctx.allowIn then return .inr left
      else
        advance
        let rightBracket ← at? "("
        let right ← rules (.operation found) ctx
        if found ≤ 3 then
          if found == 1 then checkCoalesce left right leftBracket rightBracket
          return .inl (.node (.logical here.text) [left, right])
        else
          if here.text == "**" && !leftBracket && isSigned left then
            report .unparenthesizedPower
          return .inl (.node (.binary here.text) [left, right])

/-- A private name that is looked for in an object. -/
def privateOperand (rules : Rules) (ctx : Context) : Rule Tree := do
  let here ← token
  step
  expectWord "in"
  let object ← rules (.operation 8) ctx
  if object.form? == some .privateIn then fail .nestedPrivateIn
  return .node .privateIn [.leaf ("#" ++ here.text), object]

/-- Operations with operators above a level. -/
def operation (rules : Rules) (ctx : Context) (level : Nat) : Rule Tree := do
  let here ← token
  let first ←
    if ctx.allowIn && here.kind == .privateName then privateOperand rules ctx
    else rules .operand ctx
  untilDone (operationRound rules ctx level (here.isPunctuator "(")) first

/-! ## Arrow functions -/

/-- What stands behind an arrow: a body in braces, or an expression. -/
def arrowBody (rules : Rules) (ctx : Context) (isAsync : Bool) (parameters : Tree) :
    Rule Tree := do
  let inner := { ctx with inAwait := isAsync, inYield := false }
  let body ←
    if ← at? "\x7b" then functionBody rules { inner with allowIn := true }
    else rules .assignment inner
  return .node (.arrow isAsync) [parameters, body]

/-- The arrow of a function, which must stand on the line of the parameters. -/
def expectArrow : Rule Unit := do
  if (← token).afterNewline then report .newlineBeforeArrow
  expect "=>"

/-- The parameters and the arrow of a function, with whether it is asynchronous. -/
def arrowHead (rules : Rules) (ctx : Context) : Rule (Tree × Bool) := do
  let isAsync ← eatWord "async"
  let parameters ← formalParameters rules { ctx with inAwait := ctx.inAwait || isAsync }
  expectArrow
  return (parameters, isAsync)

/-- The rest of a function that is written with an arrow behind one name. -/
def singleArrow (rules : Rules) (ctx : Context) (isAsync : Bool) (parameter : Ident) :
    Rule Tree := do
  expectArrow
  arrowBody rules ctx isAsync (.node .parameters [.binding parameter])

/-- Whether the parameters of an arrow function begin at the parenthesis at hand: surely, surely
not, or only a full reading can tell. -/
inductive ArrowGuess where
  | yes
  | no
  | open
  deriving Repr, DecidableEq

/-- Guess from the tokens after the opening parenthesis at hand.  A rest element makes sure that
parameters begin, unless the parenthesis may be that of a call. -/
def guessAfterParenthesis (ofRest : ArrowGuess) : Rule ArrowGuess := do
  step
  let second ← token
  if second.isPunctuator ")" then
    step
    let third ← token
    return if third.isPunctuator "=>" || third.isPunctuator ":" || third.isPunctuator "\x7b" then
      .yes else .no
  else if second.isPunctuator "[" || second.isPunctuator "\x7b" then return .open
  else if second.isPunctuator "..." then
    step
    let third ← token
    return if third.isIdentifier || third.isPunctuator "[" || third.isPunctuator "\x7b" then
      ofRest else .no
  else if !(second.isIdentifier || second.isWord "this") then return .no
  else
    step
    let third ← token
    if third.isPunctuator ":" then return .yes
    else if third.isPunctuator "?" then
      step
      let fourth ← token
      return if fourth.isPunctuator ":" || fourth.isPunctuator "," || fourth.isPunctuator "=" ||
        fourth.isPunctuator ")" then .yes else .no
    else if third.isPunctuator "," || third.isPunctuator "=" || third.isPunctuator ")" then
      return .open
    else return .no

/-- Guess whether an arrow function with parentheses begins at the token at hand. -/
def guessArrow : Rule ArrowGuess := do
  let here ← token
  if here.isPunctuator "(" then ahead (guessAfterParenthesis .yes)
  else if here.isWord "async" then
    ahead do
      step
      let next ← token
      if next.afterNewline || !next.isPunctuator "(" then return .no
      else guessAfterParenthesis .open
  else return .no

/-- An arrow function with parentheses, if one begins at the token at hand. -/
def arrowFunction? (rules : Rules) (ctx : Context) : Rule (Option Tree) := do
  match ← guessArrow with
  | .no => return none
  | .yes =>
      let (parameters, isAsync) ← arrowHead rules ctx
      return some (← arrowBody rules ctx isAsync parameters)
  | .open =>
      match ← attempt (arrowHead rules ctx) with
      | none => return none
      | some (parameters, isAsync) => return some (← arrowBody rules ctx isAsync parameters)

/-- Whether an asynchronous arrow function without parentheses begins at the token at hand. -/
def asyncArrowAhead? : Rule Bool := do
  if ← atWord? "async" then
    ahead do
      step
      let next ← token
      if next.afterNewline || !next.isIdentifier then return false
      step
      let arrow ← token
      return !arrow.afterNewline && arrow.isPunctuator "=>"
  else return false

/-! ## Assignments -/

/-- The punctuators that assign. -/
def assignmentOperators : List String :=
  ["=", "+=", "-=", "*=", "/=", "%=", "<<=", ">>=", ">>>=", "&=", "|=", "^=", "**=", "&&=",
    "||=", "??="]

/-- Giving a value out of a generator. -/
def yieldExpression (rules : Rules) (ctx : Context) : Rule Tree := do
  advance
  if !ctx.inYield then report .yieldOutsideGenerator
  let here ← token
  if here.afterNewline then return .node .yield []
  else
    let delegate ← eat "*"
    let here ← token
    let ends := here.kind == .endOfText || here.isWord "in" ||
      (here.kind == .punctuator && [";", "\x7d", ")", "]", ":", ","].contains here.text)
    if delegate || !ends then
      return .node .yield [← rules .assignment { ctx with inYield := true }]
    else return .node .yield []

/-- Whether a generator gives a value at the token at hand. -/
def yieldAhead? (ctx : Context) : Rule Bool := do
  if ← atWord? "yield" then
    if ctx.inYield then return true else operandAhead?
  else return false

/-- A choice between two expressions, or the given condition alone. -/
def conditionalRest (rules : Rules) (ctx : Context) (condition : Tree) : Rule Tree := do
  if ← eat "?" then
    let first ← rules .assignment { ctx with allowIn := true }
    expect ":"
    let second ← rules .assignment ctx
    return .node .conditional [condition, first, second]
  else return condition

/-- What follows the left side of an expression without commas. -/
def assignmentRest (rules : Rules) (ctx : Context) (left : Tree) : Rule Tree := do
  let here ← token
  match left.reference?, here.isPunctuator "=>" with
  | some parameter, true => singleArrow rules ctx false parameter
  | _, _ =>
      if here.kind == .punctuator && assignmentOperators.contains here.text then
        let target ← if here.text == "=" then toTarget left else toSimpleTarget left
        advance
        return .node (.assignment here.text) [target, ← rules .assignment ctx]
      else conditionalRest rules ctx left

/-- An expression without commas. -/
def assignment (rules : Rules) (ctx : Context) : Rule Tree := do
  if ← yieldAhead? ctx then return ← yieldExpression rules ctx
  if let some function ← arrowFunction? rules ctx then return function
  if ← asyncArrowAhead? then
    advance
    let parameter ← takeIdent
    return ← singleArrow rules ctx true parameter
  assignmentRest rules ctx (← rules (.operation 0) ctx)

/-- One more expression after a comma. -/
def sequenceRound (rules : Rules) (ctx : Context) (read : List Tree) :
    Rule (List Tree ⊕ List Tree) := do
  if ← eat "," then return .inl ((← rules .assignment ctx) :: read)
  else return .inr read.reverse

/-- Expressions separated by commas. -/
def expression (rules : Rules) (ctx : Context) : Rule Tree := do
  let ctx := { ctx with inDecorator := false }
  let first ← rules .assignment ctx
  if ← at? "," then
    return .node .sequence (← untilDone (sequenceRound rules ctx) [first])
  else return first

/-- An expression in parentheses after a word. -/
def condition (rules : Rules) (ctx : Context) : Rule Tree := do
  expect "("
  let tree ← rules .expression { ctx with allowIn := true }
  expect ")"
  return tree

end Rule
end Script
end FeatureProbes
