import FeatureProbes.Script.Lexeme
import FeatureProbes.Script.Tree
import FeatureProbes.Script.Trivia

/-!
# Reading scripts token by token

The state of reading is the token at hand and the text after it, with the faults met so far.
Some faults are only noted and reading goes on; others end it.  Of all faults the first lexical
one counts, then the first grammatical one, then the one that ended reading.

The rules of the grammar call each other through one function from goals to rules.  A rule is
given that function as an argument, so each rule is an ordinary definition, and the recursion is
closed in one place.
-/

namespace FeatureProbes
namespace Script

/-- What surrounds the construct that is read. -/
structure Context where
  /-- Whether `in` is an operator. -/
  allowIn : Bool
  /-- Whether the construct stands in a generator. -/
  inYield : Bool
  /-- Whether the construct stands in an asynchronous function. -/
  inAwait : Bool
  /-- Whether a function can be returned from. -/
  inReturn : Bool
  /-- Whether the construct stands in a decorator. -/
  inDecorator : Bool
  deriving Repr, DecidableEq

/-- The surroundings of an expression between brackets. -/
def Context.bracketed (ctx : Context) : Context :=
  { ctx with allowIn := true, inDecorator := false }

/-- The constructs that contain each other. -/
inductive Goal where
  /-- Expressions separated by commas. -/
  | expression
  /-- An expression without commas. -/
  | assignment
  /-- Operands joined by operators that bind tighter than the given level. -/
  | operation (level : Nat)
  /-- An operand with its signs. -/
  | operand
  /-- An operand after a sign. -/
  | signedOperand
  /-- Calls and member accesses. -/
  | access
  /-- What calls and member accesses begin with. -/
  | primary
  /-- A statement, which may be confined to a place for a single statement. -/
  | statement (single : Bool)
  /-- A declared variable or a pattern of declared variables. -/
  | pattern
  deriving Repr, DecidableEq

/-- The state of reading. -/
structure State where
  /-- The token at hand. -/
  token : Token
  /-- The text after the token at hand. -/
  rest : List Char
  /-- Lexical faults, in the order of the text. -/
  lexical : List Fault
  /-- Grammatical faults after which reading went on, in the order in which they were met. -/
  grammatical : List Fault
  /-- The places of shorthand defaults that no pattern has taken up. -/
  defaults : List Nat
  /-- More than the number of characters of the whole text. -/
  budget : Nat
  deriving Repr, DecidableEq

/-- A rule: it reads on in a state or ends reading with a fault. -/
abbrev Rule (α : Type) := StateT State (Except Fault) α

/-- The rules for what can stand inside of itself, which the other rules get as an argument. -/
abbrev Rules := Goal → Context → Rule Tree

/-- The token at the beginning of a text, the text behind it, and the faults on the way. -/
def scanToken (offset : Nat) (atLineStart : Bool) (text : List Char) :
    Token × List Char × List Fault :=
  let skipped := skipTrivia .between 0 atLineStart text
  let start := offset + skipped.count
  let lexeme := readLexeme skipped.rest
  let token : Token :=
    { kind := lexeme.kind
      text := lexeme.text
      start := start
      stop := start + lexeme.spelling.length
      afterNewline := skipped.newline
      escaped := lexeme.escaped
      badEscape := lexeme.badEscape }
  let faults := if skipped.unclosed then [Fault.unterminatedComment] else []
  (token, lexeme.rest, faults ++ lexeme.faults)

namespace Rule

/-- The token at hand. -/
def token : Rule Token := do
  return (← get).token

/-- Note a fault and go on. -/
def report (fault : Fault) : Rule Unit :=
  modify fun s => { s with grammatical := s.grammatical ++ [fault] }

/-- The fault that counts when reading ends in a state with the given fault. -/
def firstFault (s : State) (last : Fault) : Fault :=
  match s.lexical, s.grammatical with
  | fault :: _, _ => fault
  | [], fault :: _ => fault
  | [], [] => last

/-- End reading. -/
def fail {α : Type} (fault : Fault) : Rule α :=
  fun s => .error (firstFault s fault)

/-- End reading at a token that nothing can begin with.  Where the token itself is missing, the
last lexical fault is the reason. -/
def unexpected {α : Type} : Rule α := fun s =>
  match s.token.isStuck, s.lexical.getLast? with
  | true, some fault => .error (firstFault { s with lexical := s.lexical.dropLast } fault)
  | _, _ => .error (firstFault s .unexpectedToken)

/-- Take the lexeme that was found in place of the token at hand. -/
def replaceToken (lexeme : Lexeme) : Rule Unit :=
  modify fun s =>
    { s with
      token :=
        { s.token with
          kind := lexeme.kind
          text := lexeme.text
          stop := s.token.start + lexeme.spelling.length
          escaped := lexeme.escaped
          badEscape := lexeme.badEscape }
      rest := lexeme.rest
      lexical := s.lexical ++ lexeme.faults }

/-- Go to the next token, whatever the token at hand is. -/
def step : Rule Unit :=
  modify fun s =>
    let (token, rest, faults) := scanToken s.token.stop false s.rest
    { s with token := token, rest := rest, lexical := s.lexical ++ faults }

/-- Go past the token at hand; a keyword must be spelled without escapes. -/
def advance : Rule Unit := do
  let here ← token
  if here.escaped && here.isKeyword then report .escapedKeyword
  step

/-- Whether the token at hand is this punctuator. -/
def at? (mark : String) : Rule Bool := do
  return (← token).isPunctuator mark

/-- Whether the token at hand is this word. -/
def atWord? (word : String) : Rule Bool := do
  return (← token).isWord word

/-- Whether nothing more can be read at the token at hand. -/
def stuck? : Rule Bool := do
  return (← token).isStuck

/-- Go past this punctuator if it is at hand, and say whether it was. -/
def eat (mark : String) : Rule Bool := do
  if ← at? mark then
    advance
    return true
  else return false

/-- Go past this word if it is at hand, and say whether it was. -/
def eatWord (word : String) : Rule Bool := do
  if ← atWord? word then
    advance
    return true
  else return false

/-- Go past this punctuator, which must be at hand. -/
def expect (mark : String) : Rule Unit := do
  if !(← eat mark) then fail (.expectedToken mark (← token).describe)

/-- Go past this word, which must be at hand. -/
def expectWord (word : String) : Rule Unit := do
  if !(← eatWord word) then fail (.expectedToken word (← token).describe)

/-- Whether a statement may end before the token at hand without a semicolon. -/
def implicitEnd? : Rule Bool := do
  let here ← token
  return here.isPunctuator ";" || here.isPunctuator "\x7d" || here.kind == .endOfText ||
    here.afterNewline

/-- End a statement, by a semicolon or where none is needed. -/
def endStatement : Rule Unit := do
  if !(← implicitEnd?) then fail .missingSemicolon
  if ← at? ";" then advance

/-- Try a rule for its answer only. -/
def ahead {α : Type} (rule : Rule α) : Rule α := fun s =>
  match rule s with
  | .ok (a, _) => .ok (a, s)
  | .error fault => .error fault

/-- Try a rule; if it ends reading, it has read nothing. -/
def attempt {α : Type} (rule : Rule α) : Rule (Option α) := fun s =>
  match rule s with
  | .ok (a, t) => .ok (some a, t)
  | .error _ => .ok (none, s)

/-- Repeat a step until it gives an answer, within a number of rounds. -/
def repeatWithin {σ α : Type} (round : σ → Rule (σ ⊕ α)) : Nat → σ → Rule α
  | 0, _ => fail .tooDeep
  | rounds + 1, state => do
      match ← round state with
      | .inl next => repeatWithin round rounds next
      | .inr answer => return answer

/-- Repeat a step until it gives an answer.  Every round but the last takes a token, so as many
rounds as the text has characters are enough. -/
def untilDone {σ α : Type} (round : σ → Rule (σ ⊕ α)) (start : σ) : Rule α := do
  repeatWithin round (← get).budget start

/-- One round of a list: the separator and the next item, or the end of the list. -/
def listRound (close : String) (item : Rule Tree) (read : List Tree) :
    Rule (List Tree ⊕ (List Tree × Bool)) := do
  if (← at? close) || (← stuck?) then return .inr (read.reverse, false)
  if !(← at? ",") then fail (.expectedEither "," close (← token).describe)
  advance
  if ← at? close then return .inr (read.reverse, true)
  return .inl ((← item) :: read)

/-- Items separated by commas up to the closing mark, which is not taken, with whether a comma
stands before it. -/
def listUntil (close : String) (item : Rule Tree) : Rule (List Tree × Bool) := do
  if (← at? close) || (← stuck?) then return ([], false)
  let first ← item
  untilDone (listRound close item) [first]

/-- What a list with a rest element has read. -/
structure RestList where
  read : List Tree
  rest : Option Tree
  first : Bool

def restListRound (close : String) (item restItem : Rule Tree) (late : Fault)
    (list : RestList) : Rule (RestList ⊕ List Tree) := do
  let done := list.read.reverse ++ list.rest.toList
  if (← at? close) || (← stuck?) then return .inr done
  if !list.first then
    if !(← at? ",") then fail (.expectedEither "," close (← token).describe)
    advance
    if ← at? close then
      if list.rest.isSome then report .restTrailingComma
      return .inr done
  if list.rest.isSome then report late
  if ← at? "..." then
    return .inl { list with rest := some (← restItem), first := false }
  else
    return .inl { list with read := (← item) :: list.read, first := false }

/-- Items separated by commas up to the closing mark, the last of which may be a rest element. -/
def restListUntil (close : String) (item restItem : Rule Tree) (late : Fault) :
    Rule (List Tree) :=
  untilDone (restListRound close item restItem late) ⟨[], none, true⟩

/-- One further item of a row, unless the row ends. -/
def rowRound (ends : Rule Bool) (item : Rule Tree) (read : List Tree) :
    Rule (List Tree ⊕ List Tree) := do
  if (← stuck?) || (← ends) then return .inr read.reverse
  return .inl ((← item) :: read)

/-- Items one after the other, up to a token that ends the row. -/
def rowUntil (ends : Rule Bool) (item : Rule Tree) : Rule (List Tree) :=
  untilDone (rowRound ends item) []

/-! ## Names -/

/-- The identifier at hand, which is gone past. -/
def takeIdent : Rule Ident := do
  let here ← token
  step
  return ⟨here.text, here.start, here.stop⟩

/-- Note a fault if the token at hand is a name that its surroundings forbid. -/
def checkIdentifier (ctx : Context) (here : Token) : Rule Unit := do
  if ctx.inAwait && here.isWord "await" then report .awaitIdentifier
  if ctx.inYield && here.isWord "yield" then report .yieldIdentifier

/-- The use of a variable. -/
def identifierReference (ctx : Context) : Rule Tree := do
  let here ← token
  if !here.isIdentifier then unexpected
  checkIdentifier ctx here
  return .reference (← takeIdent)

/-- The declaration of a variable. -/
def bindingIdentifier (ctx : Context) : Rule Tree := do
  let here ← token
  if here.isReserved then fail (.reservedWord here.text)
  if !here.isIdentifier then unexpected
  checkIdentifier ctx here
  return .binding (← takeIdent)

/-- Whether the word `let` at hand declares variables. -/
def letDeclarationAhead? (single : Bool) : Rule Bool :=
  ahead do
    step
    let next ← token
    if next.isPunctuator "[" then return true
    else
      return !single && (next.isPunctuator "\x7b" ||
        (next.kind == .word && !next.isWord "in" && !next.isWord "instanceof"))

/-- A word that is no variable. -/
def wordLeaf : Rule Tree := do
  let here ← token
  if here.kind != .word then unexpected
  step
  return .leaf here.text

/-- A token taken as it is. -/
def tokenLeaf : Rule Tree := do
  let here ← token
  advance
  return .leaf here.text

/-- The name of a property: a literal, a computed key, or a word. -/
def propertyName (rules : Rules) (ctx : Context) : Rule Tree := do
  let here ← token
  if here.isNumberOrString then tokenLeaf
  else if here.isPunctuator "[" then
    advance
    let key ← rules .assignment { ctx with allowIn := true }
    expect "]"
    return .node .computedKey [key]
  else wordLeaf

end Rule
end Script
end FeatureProbes
