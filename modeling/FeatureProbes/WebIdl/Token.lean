import FeatureProbes.Text.Blank

/-!
# Tokens of interface definitions

A text is cut into names, numbers, strings and marks; blanks and comments stand between them.
Every kind of token has a scanner of its own, which gives the characters it took and the text
after them.  A low line in front of a name keeps the name from being read as a keyword in the
notation; it is no part of the name.
-/

namespace FeatureProbes
namespace WebIdl

/-- The kinds of tokens. -/
inductive TokenKind where
  /-- A name, with whether a low line stands in front of it. -/
  | name (marked : Bool)
  | integer
  | decimal
  | string
  | mark
  | ellipsis
  deriving Repr, DecidableEq

/-- A token. -/
structure Token where
  kind : TokenKind
  /-- The name without a low line in front, the characters between the quotes of a string, else
  the characters of the token. -/
  text : String
  /-- The line on which the token ends, counted from one. -/
  line : Nat
  deriving Repr, DecidableEq

namespace Token

/-- How a token is written. -/
def spelling (token : Token) : List Char :=
  match token.kind with
  | .name true => '_' :: token.text.toList
  | .string => '"' :: (token.text.toList ++ ['"'])
  | _ => token.text.toList

/-- The token is a name. -/
def isName (token : Token) : Bool :=
  match token.kind with
  | .name _ => true
  | _ => false

/-- Whether the token is this name. -/
def isWord (token : Token) (word : String) : Bool :=
  token.isName && token.text == word

/-- The token is a mark with some text. -/
def isMark (token : Token) (mark : String) : Bool :=
  token.kind == .mark && token.text == mark

end Token

/-- Why a text cannot be cut into tokens. -/
inductive LexicalFault where
  | unterminatedString
  | unexpectedCharacter (c : Char)
  deriving Repr, DecidableEq

/-- The text after a comment to the end of the line. -/
def skipLine : List Char → List Char
  | [] => []
  | c :: rest => if c = '\n' then c :: rest else skipLine rest

/-- The line and the text after a block comment; one that is not closed takes the whole text. -/
def skipBlock : Nat → List Char → Nat × List Char
  | line, [] => (line, [])
  | line, '*' :: '/' :: rest => (line, rest)
  | line, c :: rest => skipBlock (if c = '\n' then line + 1 else line) rest

/-- The characters up to the closing quote, the line of the quote and the text after it. -/
def scanString : Nat → List Char → Option (List Char × Nat × List Char)
  | _, [] => none
  | line, c :: rest =>
      if c = '"' then some ([], line, rest)
      else
        (scanString (if c = '\n' then line + 1 else line) rest).map fun (text, last, rest) =>
          (c :: text, last, rest)

/-- The characters of names behind the first one. -/
def isNamePart (c : Char) : Bool :=
  c.isAlphanum || c == '_' || c == '-'

/-- Whether a name begins at the start of a text. -/
def startsName : List Char → Bool
  | [] => false
  | c :: rest => c.isAlpha || ((c == '_' || c == '-') && rest.head?.any Char.isAlpha)

/-- Whether a number begins at the start of a text. -/
def startsNumber : List Char → Bool
  | [] => false
  | c :: rest =>
      c.isDigit || (c == '-' && rest.head?.any fun d => d.isDigit || d == '.') ||
        (c == '.' && rest.head?.any Char.isDigit)

/-- The characters of a number after its first one, whether it has a point or an exponent, and the
text after it.  Once a base mark has been read the letter of exponents is a digit. -/
def scanNumber : Bool → List Char → List Char × Bool × List Char
  | _, [] => ([], false, [])
  | based, c :: rest =>
      if c == '.' || ((c == 'e' || c == 'E') && !based) then
        match rest with
        | d :: more =>
            if c != '.' && (d == '+' || d == '-') then
              let (text, _, rest) := scanNumber based more
              (c :: d :: text, true, rest)
            else
              let (text, _, rest) := scanNumber based (d :: more)
              (c :: text, true, rest)
        | [] => ([c], true, [])
      else if c.isAlphanum then
        let (text, isDecimal, rest) := scanNumber (based || c == 'x' || c == 'X') rest
        (c :: text, isDecimal, rest)
      else ([], false, c :: rest)

/-- The characters that are tokens by themselves. -/
def marks : List Char :=
  ['(', ')', '\x7b', '\x7d', '[', ']', '<', '>', ',', ';', ':', '=', '?', '*']

/-- What stands at the start of a text. -/
inductive Scanned where
  /-- Nothing but the end of the text. -/
  | done
  /-- Blanks or a comment: the line and the text after them. -/
  | trivia (line : Nat) (rest : List Char)
  /-- A token, the line after it and the text after it. -/
  | token (token : Token) (line : Nat) (rest : List Char)
  | failed (line : Nat) (fault : LexicalFault)
  deriving Repr, DecidableEq

/-- A name, of which a leading underscore is no part. -/
def scanName (line : Nat) (text : List Char) : Scanned :=
  let name := text.takeWhile isNamePart
  let rest := text.dropWhile isNamePart
  match name with
  | '_' :: plain => .token ⟨.name true, String.ofList plain, line⟩ line rest
  | plain => .token ⟨.name false, String.ofList plain, line⟩ line rest

/-- The blank, comment or token at the start of a text. -/
def scanOne (line : Nat) (text : List Char) : Scanned :=
  match text with
  | [] => .done
  | '/' :: '/' :: rest => .trivia line (skipLine rest)
  | '/' :: '*' :: rest => let (line, rest) := skipBlock line rest; .trivia line rest
  | '.' :: '.' :: '.' :: rest => .token ⟨.ellipsis, "...", line⟩ line rest
  | c :: rest =>
      if c = '\n' then .trivia (line + 1) rest
      else if Text.isBlank c then .trivia line rest
      else if c = '"' then
        match scanString line rest with
        | some (value, last, rest) => .token ⟨.string, String.ofList value, last⟩ last rest
        | none => .failed (line + rest.count '\n') .unterminatedString
      else if startsName text then scanName line text
      else if startsNumber text then
        let (more, isDecimal, rest) := scanNumber false rest
        .token ⟨if isDecimal then .decimal else .integer, String.ofList (c :: more), line⟩ line
          rest
      else if marks.contains c then .token ⟨.mark, c.toString, line⟩ line rest
      else .failed line (.unexpectedCharacter c)

/-- The tokens of a text and the line of its end, within a number of rounds. -/
def scanWithin : Nat → Nat → List Char → Except (Nat × LexicalFault) (List Token × Nat)
  | 0, line, _ => .ok ([], line)
  | rounds + 1, line, text =>
      match scanOne line text with
      | .done => .ok ([], line)
      | .trivia line rest => scanWithin rounds line rest
      | .token token line rest => do
          let (tokens, last) ← scanWithin rounds line rest
          return (token :: tokens, last)
      | .failed line fault => .error (line, fault)

/-- The tokens of a text and the line of its end.  Every round takes a character, so as many
rounds as the text has characters are enough. -/
def tokens (text : List Char) : Except (Nat × LexicalFault) (List Token × Nat) :=
  scanWithin (text.length + 1) 1 text

end WebIdl
end FeatureProbes
