/-!
# Blanks and comments of scripts

What stands between two tokens of a script: blanks, line ends and comments.  Skipping goes
through the text one character at a time and remembers in a mode whether it is inside a comment.
Two marks of markup documents also open a comment that runs to the end of its line: `<!--`
anywhere, and `-->` where nothing but blanks and comments stands before it on its line.
-/

namespace FeatureProbes
namespace Script

/-- The characters that end a line. -/
def isLineEnd (c : Char) : Bool :=
  c == '\n' || c == '\r' || c.toNat == 0x2028 || c.toNat == 0x2029

/-- Blanks of a script other than line ends. -/
def isSpace (c : Char) : Bool :=
  let n := c.toNat
  n == 9 || n == 11 || n == 12 || n == 32 || n == 0x85 || n == 0xA0 || n == 0x1680 ||
    (0x2000 ≤ n && n ≤ 0x200B) || n == 0x202F || n == 0x205F || n == 0x3000 || n == 0xFEFF

/-- Where in the trivia a character stands. -/
inductive TriviaMode where
  /-- Outside of comments. -/
  | between
  /-- In a comment that the end of the line closes. -/
  | line
  /-- At the star that completes the opening mark of a block comment. -/
  | opening
  /-- In a block comment. -/
  | block
  /-- At the slash that completes the closing mark of a block comment. -/
  | closing
  deriving Repr, DecidableEq

/-- What skipping reached. -/
structure Skipped where
  /-- How many characters were skipped. -/
  count : Nat
  /-- Whether a line end was among them. -/
  newline : Bool
  /-- The text from the next token on. -/
  rest : List Char
  /-- Whether the text ended inside a block comment. -/
  unclosed : Bool
  deriving Repr, DecidableEq

/-- Skip blanks and comments. -/
def skipTrivia : TriviaMode → Nat → Bool → List Char → Skipped
  | mode, count, newline, [] =>
      ⟨count, newline, [], mode == .block || mode == .opening⟩
  | .between, count, newline, c :: rest =>
      if isLineEnd c then skipTrivia .between (count + 1) true rest
      else if isSpace c then skipTrivia .between (count + 1) newline rest
      else if c == '/' && rest.head? == some '/' then
        skipTrivia .line (count + 1) newline rest
      else if c == '/' && rest.head? == some '*' then
        skipTrivia .opening (count + 1) newline rest
      else if c == '<' && ['!', '-', '-'].isPrefixOf rest then
        skipTrivia .line (count + 1) newline rest
      else if newline && c == '-' && ['-', '>'].isPrefixOf rest then
        skipTrivia .line (count + 1) newline rest
      else ⟨count, newline, c :: rest, false⟩
  | .line, count, newline, c :: rest =>
      if isLineEnd c then skipTrivia .between (count + 1) true rest
      else skipTrivia .line (count + 1) newline rest
  | .opening, count, newline, _ :: rest => skipTrivia .block (count + 1) newline rest
  | .block, count, newline, c :: rest =>
      if c == '*' && rest.head? == some '/' then
        skipTrivia .closing (count + 1) newline rest
      else skipTrivia .block (count + 1) (newline || isLineEnd c) rest
  | .closing, count, newline, _ :: rest => skipTrivia .between (count + 1) newline rest

end Script
end FeatureProbes
