import FeatureProbes.WebIdl.Token

/-!
# Reading tokens

A parser takes tokens from the front of a list.  It stops at the first token that does not fit,
with what is wrong there and the line of that token; at the end of the tokens the line is left
open, because only the text knows where it ends.

Lists are read in rounds.  Every round takes a token, so one round more than there are tokens is
enough, and nested constructs are bounded in the same way.
-/

namespace FeatureProbes
namespace WebIdl

/-- What a parser looks for. -/
inductive Expectation where
  | mark (mark : String)
  | identifier
  | definition
  | partialDefinition
  | enumValue
  | bodyEnd
  | defaultValue
  deriving Repr, DecidableEq

/-- How a message says what was looked for. -/
def Expectation.describe : Expectation → String
  | mark spelling => "Expected '" ++ spelling ++ "'"
  | identifier => "Expected identifier"
  | definition => "Expected definition"
  | partialDefinition => "Expected interface, namespace or dictionary after partial"
  | enumValue => "Expected string in enum"
  | bodyEnd => "Unterminated definition body"
  | defaultValue => "Expected default value"

/-- What is wrong with the text of definitions. -/
inductive SyntaxProblem where
  | lexical (fault : LexicalFault)
  /-- Something else was looked for; nothing is found at the end of the text. -/
  | unexpected (expectation : Expectation) (found : Option String)
  | invalidValue (name : String)
  | invalidList
  /-- Nesting beyond the number of tokens, which no text has. -/
  | tooDeep
  deriving Repr, DecidableEq

namespace SyntaxProblem

/-- How a message names what was found. -/
def describeFound : Option String → String
  | none => "end of input"
  | some text => "'" ++ text ++ "'"

/-- The text of a message. -/
def message : SyntaxProblem → String
  | lexical .unterminatedString => "Unterminated string"
  | lexical (.unexpectedCharacter c) => "Unexpected character '" ++ c.toString ++ "'"
  | unexpected expectation found =>
      expectation.describe ++ ", found " ++ describeFound found
  | invalidValue name => "Invalid value for extended attribute " ++ name
  | invalidList => "Mixed or invalid extended attribute list"
  | tooDeep => "Nesting too deep"

end SyntaxProblem

/-- Where and why a parser stops. -/
structure Stop where
  problem : SyntaxProblem
  /-- The line of the token that does not fit, unless it is the end of the text. -/
  line : Option Nat
  deriving Repr, DecidableEq

/-- Readers take tokens from the front of a list, or stop. -/
abbrev Parser (α : Type) := StateT (List Token) (Except Stop) α

namespace Parser

/-- The stop at the next token. -/
def stop {α : Type} (problem : SyntaxProblem) : Parser α := fun tokens =>
  .error ⟨problem, tokens.head?.map Token.line⟩

/-- Stop because the token at hand is not what is looked for. -/
def unexpected {α : Type} (expectation : Expectation) : Parser α := fun tokens =>
  .error ⟨.unexpected expectation (tokens.head?.map Token.text), tokens.head?.map Token.line⟩

/-- Whether the token at hand is this mark. -/
def atMark (mark : String) : Parser Bool := do
  return (← get).head?.any fun token => token.isMark mark

/-- Whether the token at hand is this word. -/
def atWord (word : String) : Parser Bool := do
  return (← get).head?.any fun token => token.isWord word

/-- The next token is of a kind. -/
def atKind (kind : TokenKind) : Parser Bool := do
  return (← get).head?.any fun token => token.kind == kind

/-- Whether the token at hand is a name. -/
def atName : Parser Bool := do
  return (← get).head?.any Token.isName

/-- Whether the token after the one at hand is this word. -/
def nextIsWord (word : String) : Parser Bool := do
  return (← get).tail.head?.any fun token => token.isWord word

/-- Whether the token after the one at hand is this mark. -/
def nextIsMark (mark : String) : Parser Bool := do
  return (← get).tail.head?.any fun token => token.isMark mark

/-- Go past the token at hand. -/
def skip : Parser Unit :=
  modify List.tail

/-- Go past this mark if it is at hand, and say whether it was. -/
def eatMark (mark : String) : Parser Bool := do
  if ← atMark mark then
    skip
    return true
  else return false

/-- Go past this word if it is at hand, and say whether it was. -/
def eatWord (word : String) : Parser Bool := do
  if ← atWord word then
    skip
    return true
  else return false

/-- Go past all tokens at hand that are this word, and say whether there was one. -/
def eatWords (word : String) : Parser Bool := do
  let found ← atWord word
  modify fun tokens => tokens.dropWhile fun token => token.isWord word
  return found

/-- Go past this mark, which must be at hand. -/
def expectMark (mark : String) : Parser Unit := do
  if !(← eatMark mark) then unexpected (.mark mark)

/-- The name at hand. -/
def identifier : Parser String := fun tokens =>
  match tokens with
  | [] => unexpected .identifier tokens
  | token :: rest => if token.isName then .ok (token.text, rest) else unexpected .identifier tokens

/-- The string at hand. -/
def stringValue : Parser String := fun tokens =>
  match tokens with
  | [] => unexpected .enumValue tokens
  | token :: rest =>
      if token.kind == .string then .ok (token.text, rest) else unexpected .enumValue tokens

/-- Items with commas between them, or with one after the last of them, up to a closing mark,
within a number of rounds. -/
def commaListWithin {α : Type} (close : String) (item : Parser α) : Nat → Parser (List α)
  | 0 => stop .tooDeep
  | rounds + 1 => do
      if ← atMark close then return []
      let first ← item
      if ← eatMark "," then
        return first :: (← commaListWithin close item rounds)
      else return [first]

/-- Items with commas between them, or with one after the last of them, and a closing mark. -/
def commaList {α : Type} (close : String) (item : Parser α) : Parser (List α) := do
  let items ← commaListWithin close item ((← get).length + 1)
  expectMark close
  return items

/-- More items, each after a separator, within a number of rounds. -/
def moreWithin {α : Type} (separator : Parser Bool) (item : Parser α) : Nat → Parser (List α)
  | 0 => stop .tooDeep
  | rounds + 1 => do
      if ← separator then
        let next ← item
        return next :: (← moreWithin separator item rounds)
      else return []

/-- One item or more, with separators between them. -/
def separated {α : Type} (separator : Parser Bool) (item : Parser α) : Parser (List α) := do
  let first ← item
  return first :: (← moreWithin separator item ((← get).length + 1))

/-- Items up to a place where they end, within a number of rounds. -/
def untilWithin {α : Type} (ends : Parser Bool) (item : Parser α) : Nat → Parser (List α)
  | 0 => stop .tooDeep
  | rounds + 1 => do
      if ← ends then return []
      let first ← item
      return first :: (← untilWithin ends item rounds)

/-- Items up to a place where they end. -/
def itemsUntil {α : Type} (ends : Parser Bool) (item : Parser α) : Parser (List α) := do
  untilWithin ends item ((← get).length + 1)

end Parser
end WebIdl
end FeatureProbes
