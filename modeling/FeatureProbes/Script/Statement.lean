import FeatureProbes.Script.Linkage

/-!
# Statements of scripts

Declarations, control flow and expressions as statements.
-/

namespace FeatureProbes
namespace Script
namespace Rule

/-! ## Variables -/

/-- Note a fault if a declarator lacks the initial value that it must have. -/
def checkInitializer (kind : String) (declarator : Tree) : Rule Unit := do
  match declarator.parts with
  | [.binding _] => if kind == "const" then report .missingConstInitializer
  | [_] => report .missingPatternInitializer
  | _ => return

/-- A declared variable or pattern with its initial value. -/
def declarator (rules : Rules) (ctx : Context) (kind : String) (checked : Bool) : Rule Tree := do
  let target ← rules .pattern ctx
  let parts ← if ← eat "=" then do pure [target, ← rules .assignment ctx] else pure [target]
  let tree := Tree.node .declarator parts
  if checked then checkInitializer kind tree
  return tree

/-- One more declarator after a comma. -/
def declaratorRound (rules : Rules) (ctx : Context) (kind : String) (checked : Bool)
    (read : List Tree) : Rule (List Tree ⊕ List Tree) := do
  let next := (← declarator rules ctx kind checked) :: read
  if ← eat "," then return .inl next else return .inr next.reverse

/-- The variables of a declaration, after its word. -/
def declarators (rules : Rules) (ctx : Context) (kind : String) (checked : Bool) : Rule Tree := do
  return .node (.variables kind) (← untilDone (declaratorRound rules ctx kind checked) [])

/-- A declaration of variables, at its word. -/
def variableStatement (rules : Rules) (ctx : Context) (single : Bool) : Rule Tree := do
  let kind := (← token).text
  advance
  let tree ← declarators rules ctx kind true
  endStatement
  if single && kind != "var" then report .singleLexicalDeclaration
  return tree

/-! ## Expressions -/

/-- An expression as a statement, or a label with its statement. -/
def expressionStatement (rules : Rules) (ctx : Context) : Rule Tree := do
  let tree ← rules .expression ctx
  match tree.reference?, (← at? ":") with
  | some label, true =>
      advance
      return .node .labeled [.leaf label.name, ← rules (.statement true) ctx]
  | _, _ =>
      endStatement
      return .node .expressionStatement [tree]

/-- A statement that begins with the word `let`. -/
def letStatement (rules : Rules) (ctx : Context) (single : Bool) : Rule Tree := do
  if ← letDeclarationAhead? single then variableStatement rules ctx single
  else if single then
    let tree ← identifierReference ctx
    endStatement
    return .node .expressionStatement [tree]
  else expressionStatement rules ctx

/-- Whether a resource declaration begins at the word `using` at hand. -/
def usingDeclarationAhead? : Rule Bool :=
  ahead do
    step
    let next ← token
    return !next.afterNewline && next.isIdentifier

/-- Whether a resource declaration begins at the word `using` at hand, where a loop may go over the
items of a sequence instead. -/
def usingLoopAhead? : Rule Bool :=
  ahead do
    step
    let next ← token
    return !next.afterNewline && next.isIdentifier && !next.isWord "of"

/-! ## Control flow -/

/-- Statements in braces. -/
def block (rules : Rules) (ctx : Context) : Rule Tree := do
  expect "\x7b"
  let parts ← rowUntil (at? "\x7d") (rules (.statement false) ctx)
  expect "\x7d"
  return .node .block parts

/-- A choice between statements. -/
def ifStatement (rules : Rules) (ctx : Context) : Rule Tree := do
  advance
  let test ← condition rules ctx
  let first ← rules (.statement true) ctx
  if ← eatWord "else" then
    return .node .ifStatement [test, first, ← rules (.statement true) ctx]
  else return .node .ifStatement [test, first]

/-- A loop with its condition at the end. -/
def doStatement (rules : Rules) (ctx : Context) : Rule Tree := do
  advance
  let body ← rules (.statement true) ctx
  expectWord "while"
  let test ← condition rules ctx
  if ← at? ";" then advance
  return .node (.loop "do") [body, test]

/-- A loop with its condition at the start. -/
def whileStatement (rules : Rules) (ctx : Context) : Rule Tree := do
  advance
  let test ← condition rules ctx
  return .node (.loop "while") [test, ← rules (.statement true) ctx]

/-- The rest of a loop with a counter, after what it begins with. -/
def countedLoop (rules : Rules) (ctx : Context) (start : List Tree) (waits : Bool) :
    Rule Tree := do
  expect ";"
  let whole := { ctx with allowIn := true }
  for tree in start do
    match tree with
    | .node (.variables kind) parts => for part in parts do checkInitializer kind part
    | _ => pure ()
  let test ←
    if (← at? ";") || (← at? ")") then pure [] else do pure [← rules .expression whole]
  expect ";"
  let update ← if ← at? ")" then pure [] else do pure [← rules .expression whole]
  expect ")"
  if waits then report .forAwaitWithoutOf
  let body ← rules (.statement true) ctx
  return .node (.loop "for") (start ++ test ++ update ++ [body])

/-- The rest of a loop over the keys of an object, at the word `in`. -/
def keyLoop (rules : Rules) (ctx : Context) (target : Tree) (waits : Bool) : Rule Tree := do
  advance
  let object ← rules .expression { ctx with allowIn := true }
  expect ")"
  if waits then report .forAwaitWithoutOf
  return .node (.loop "in") [target, object, ← rules (.statement true) ctx]

/-- The rest of a loop over a sequence, at the word `of`. -/
def itemLoop (rules : Rules) (ctx : Context) (target : Tree) : Rule Tree := do
  advance
  let items ← rules .assignment { ctx with allowIn := true }
  expect ")"
  return .node (.loop "of") [target, items, ← rules (.statement true) ctx]

/-- The rest of a loop that begins with a declaration, at the word of the declaration. -/
def declaredLoop (rules : Rules) (ctx : Context) (waits : Bool) : Rule Tree := do
  let kind := (← token).text
  advance
  let declared ← declarators rules { ctx with allowIn := false } kind false
  if ← atWord? "in" then keyLoop rules ctx declared waits
  else if ← atWord? "of" then itemLoop rules ctx declared
  else countedLoop rules ctx [declared] waits

/-- The rest of a loop that begins with an expression. -/
def expressionLoop (rules : Rules) (ctx : Context) (waits : Bool) : Rule Tree := do
  let asyncFirst := (← atWord? "async") && !(← token).escaped &&
    (← ahead do
      step
      atWord? "of")
  let first ← rules .expression { ctx with allowIn := false }
  if ← atWord? "in" then keyLoop rules ctx (← toTarget first) waits
  else if ← atWord? "of" then
    if asyncFirst && !waits then report .forAsyncOf
    itemLoop rules ctx (← toTarget first)
  else countedLoop rules ctx [first] waits

/-- A loop that begins with the word `for`. -/
def forStatement (rules : Rules) (ctx : Context) : Rule Tree := do
  advance
  let waits ← atWord? "await"
  if waits then
    if !ctx.inAwait then report .awaitOutsideAsync
    advance
  expect "("
  let here ← token
  if here.isPunctuator ";" || here.isPunctuator ")" then countedLoop rules ctx [] waits
  else if here.isWord "var" || here.isWord "const" then declaredLoop rules ctx waits
  else if here.isWord "let" && (← letDeclarationAhead? false) then declaredLoop rules ctx waits
  else if here.isWord "using" && (← usingLoopAhead?) then declaredLoop rules ctx waits
  else expressionLoop rules ctx waits

/-- A jump to a label or out of the nearest construct. -/
def jumpStatement (ctx : Context) (kind : String) : Rule Tree := do
  advance
  if ← implicitEnd? then
    endStatement
    return .node (.jump kind) []
  else
    let here ← token
    if !here.isIdentifier || (ctx.inAwait && here.isWord "await") ||
        (ctx.inYield && here.isWord "yield") then
      unexpected
    step
    endStatement
    return .node (.jump kind) [.leaf here.text]

/-- Leaving a function. -/
def returnStatement (rules : Rules) (ctx : Context) : Rule Tree := do
  advance
  let value ←
    if ← eat ";" then pure []
    else if ← implicitEnd? then pure []
    else do
      let tree ← rules .expression { ctx with allowIn := true }
      endStatement
      pure [tree]
  if !ctx.inReturn then report .returnOutsideFunction
  return .node (.jump "return") value

/-- Statements with an object for their names. -/
def withStatement (rules : Rules) (ctx : Context) : Rule Tree := do
  advance
  let object ← condition rules ctx
  return .node .withStatement [object, ← rules (.statement true) ctx]

/-- Whether a row of statements in a switch ends at the token at hand. -/
def clauseEnd? : Rule Bool := do
  return (← at? "\x7d") || (← atWord? "case") || (← atWord? "default")

/-- A case with its statements. -/
def switchClause (rules : Rules) (ctx : Context) : Rule Tree := do
  let test ←
    if ← eatWord "default" then pure []
    else do
      if ← eatWord "case" then pure [← rules .expression { ctx with allowIn := true }]
      else fail .expectedSwitchClause
  expect ":"
  let parts ← rowUntil clauseEnd? (rules (.statement false) ctx)
  return .node .switchClause (test ++ parts)

/-- One further case, unless the braces close. -/
def switchRound (rules : Rules) (ctx : Context) (read : List Tree) :
    Rule (List Tree ⊕ List Tree) := do
  if ← at? "\x7d" then return .inr read.reverse
  else return .inl ((← switchClause rules ctx) :: read)

/-- A choice between clauses. -/
def switchStatement (rules : Rules) (ctx : Context) : Rule Tree := do
  advance
  let subject ← condition rules ctx
  expect "\x7b"
  let clauses ← untilDone (switchRound rules ctx) []
  expect "\x7d"
  return .node .switchStatement (subject :: clauses)

/-- Throwing a value, which must begin on the same line. -/
def throwStatement (rules : Rules) (ctx : Context) : Rule Tree := do
  advance
  if (← token).afterNewline then report .newlineAfterThrow
  let value ← rules .expression { ctx with allowIn := true }
  endStatement
  return .node (.jump "throw") [value]

/-- What is done when a value is thrown. -/
def catchClause (rules : Rules) (ctx : Context) : Rule Tree := do
  advance
  let parameter ←
    if ← eat "(" then do
      let target ← rules .pattern ctx
      expect ")"
      pure [target]
    else pure []
  return .node .catchClause (parameter ++ [← block rules ctx])

/-- Statements with what is done when a value is thrown. -/
def tryStatement (rules : Rules) (ctx : Context) : Rule Tree := do
  advance
  let body ← block rules ctx
  let handler ← if ← atWord? "catch" then do pure [← catchClause rules ctx] else pure []
  let last ← if ← eatWord "finally" then do pure [← block rules ctx] else pure []
  if handler.isEmpty && last.isEmpty then report .missingCatch
  return .node .tryStatement (body :: handler ++ last)

/-- A function as a statement.  Where a single statement is due it is neither asynchronous nor a
generator. -/
def functionStatement (rules : Rules) (ctx : Context) (single : Bool) : Rule Tree := do
  let tree ← functionAny rules ctx false true
  if single then
    match tree.form? with
    | some (.functionLike true _) => report .singleAsyncFunction
    | some (.functionLike _ true) => report .singleGenerator
    | _ => pure ()
  return tree

/-- A class as a statement, which is a fault where a single statement is due. -/
def classStatement (rules : Rules) (ctx : Context) (single : Bool) : Rule Tree := do
  let tree ← classAny rules ctx true
  if single then report .singleClass
  return tree

/-- A class or an export with decorators in front, as a statement. -/
def decoratedStatement (rules : Rules) (ctx : Context) (single : Bool) : Rule Tree := do
  let decorated ← decorators rules ctx
  if ← atWord? "class" then
    let tree ← classStatement rules ctx single
    return .node .classLike (decorated ++ tree.parts)
  else if ← atWord? "export" then
    return .node .exportDeclaration (decorated ++ [← exportDeclaration rules ctx])
  else unexpected

/-- The end of a statement that is only a word. -/
def debuggerStatement : Rule Tree := do
  advance
  endStatement
  return .node (.jump "debugger") []

/-! ## Any statement -/

/-- The statement that begins with the word at hand. -/
def wordStatement (rules : Rules) (ctx : Context) (single : Bool) (here : Token) :
    Rule Tree := do
  match here.text with
  | "if" => ifStatement rules ctx
  | "do" => doStatement rules ctx
  | "while" => whileStatement rules ctx
  | "for" => forStatement rules ctx
  | "continue" | "break" => jumpStatement ctx here.text
  | "with" => withStatement rules ctx
  | "switch" => switchStatement rules ctx
  | "throw" => throwStatement rules ctx
  | "try" => tryStatement rules ctx
  | "debugger" => debuggerStatement
  | "class" => classStatement rules ctx single
  | "export" => exportDeclaration rules ctx
  | "return" => returnStatement rules ctx
  | "var" | "const" => variableStatement rules ctx single
  | "function" => functionStatement rules ctx single
  | "let" =>
      if here.escaped then expressionStatement rules ctx else letStatement rules ctx single
  | "async" =>
      if ← asyncFunctionAhead? then functionStatement rules ctx single
      else expressionStatement rules ctx
  | "import" =>
      if ← importExpressionAhead? then expressionStatement rules ctx
      else do
        advance
        importDeclaration rules ctx
  | "using" =>
      if ← usingDeclarationAhead? then variableStatement rules ctx single
      else expressionStatement rules ctx
  | _ => expressionStatement rules ctx

/-- A statement, by the kind of its first token. -/
def statement (rules : Rules) (ctx : Context) (single : Bool) : Rule Tree := do
  let here ← token
  if here.kind == .word then wordStatement rules ctx single here
  else if here.isPunctuator "\x7b" then block rules ctx
  else if here.isPunctuator ";" then
    advance
    return .node .empty []
  else if here.isPunctuator "@" then decoratedStatement rules ctx single
  else expressionStatement rules ctx

/-! ## Whole scripts -/

/-- The rule of a goal, given the rules of all goals for what it contains. -/
def ofGoal (rules : Rules) : Rules
  | .expression => expression rules
  | .assignment => assignment rules
  | .operation level => fun ctx => operation rules ctx level
  | .operand => fun ctx => do
      let here ← token
      if isSign here || here.isWord "await" then signedOperand rules ctx
      else updateExpression rules ctx
  | .signedOperand => signedOperand rules
  | .access => accessExpression rules
  | .primary => primaryExpression rules
  | .statement single => fun ctx => statement rules ctx single
  | .pattern => bindingPattern rules

/-- The rules of all goals, for constructs nested up to a depth. -/
def upTo : Nat → Rules
  | 0 => fun _ _ => fail .tooDeep
  | depth + 1 => ofGoal (upTo depth)

/-- The statements of a script. -/
def program (rules : Rules) : Rule Tree := do
  let ctx : Context := ⟨true, false, false, true, false⟩
  return .node .program (← rowUntil (return false) (rules (.statement false) ctx))

end Rule

/-- The text after a mark for the command that runs the script, which may be the first line. -/
def afterHashMark (text : List Char) : Skipped :=
  match text with
  | '#' :: '!' :: rest => skipTrivia .line 2 true rest
  | _ => ⟨0, true, text, false⟩

/-- The state at the first token of a text. -/
def State.initial (text : List Char) : State :=
  let skipped := afterHashMark text
  let (token, rest, faults) := scanToken skipped.count true skipped.rest
  let unclosed := if skipped.unclosed then [Fault.unterminatedComment] else []
  ⟨token, rest, unclosed ++ faults, [], [], text.length + 2⟩

/-- The fault of a finished reading, if there is one. -/
def State.fault? (s : State) : Option Fault :=
  match s.lexical, s.grammatical, s.defaults with
  | fault :: _, _, _ => some fault
  | [], fault :: _, _ => some fault
  | [], [], _ :: _ => some .shorthandDefault
  | [], [], [] => none

/-- Read a script.  Constructs contain each other through at most eight rules without taking a
token, so the length of the text bounds the depth. -/
def parse (text : List Char) : Except Fault Tree :=
  match Rule.program (Rule.upTo (8 * text.length + 16)) (State.initial text) with
  | .error fault => .error fault
  | .ok (tree, s) =>
      match s.fault? with
      | some fault => .error fault
      | none => .ok tree

end Script
end FeatureProbes
