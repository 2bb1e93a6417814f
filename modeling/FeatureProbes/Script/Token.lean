/-!
# Tokens of scripts

A token has a kind, a text, the offsets of its first character and of the character after it,
and whether a line ends between it and the token before it.  Words are one kind: whether a word
is a name or a keyword depends on where it stands, so the grammar asks for its text.
-/

namespace FeatureProbes
namespace Script

/-- The notations of numbers. -/
inductive NumberForm where
  | decimal
  | float
  | exponential
  | binary
  | octal
  | hexadecimal
  deriving Repr, DecidableEq

/-- The kinds of tokens. -/
inductive TokenKind where
  /-- The end of the text. -/
  | endOfText
  /-- Characters that form no token. -/
  | unknown
  /-- A name or a keyword. -/
  | word
  | punctuator
  /-- A name after a number sign. -/
  | privateName
  | number (form : NumberForm)
  | string
  /-- A piece of a template, with whether it opens and whether it closes the template. -/
  | template (opens closes : Bool)
  | regularExpression
  deriving Repr, DecidableEq

/-- A token with its place in the text. -/
structure Token where
  kind : TokenKind
  /-- The name of a word, the value of a string, else the characters of the token. -/
  text : String
  start : Nat
  stop : Nat
  /-- Whether a line ends between this token and the one before it. -/
  afterNewline : Bool
  /-- Whether the word is spelled with escapes. -/
  escaped : Bool
  /-- Whether the template piece has an escape without a meaning. -/
  badEscape : Bool
  deriving Repr, DecidableEq

/-- Words that never stand for a variable. -/
def reservedWords : List String :=
  ["break", "case", "catch", "class", "const", "continue", "debugger", "default", "delete",
    "do", "else", "enum", "export", "extends", "false", "finally", "for", "function", "if",
    "import", "in", "instanceof", "new", "null", "return", "super", "switch", "this", "throw",
    "true", "try", "typeof", "var", "void", "while", "with"]

/-- Words with a meaning in some places that are otherwise ordinary names. -/
def contextualWords : List String :=
  ["await", "async", "from", "get", "meta", "of", "set", "target", "accessor", "source",
    "defer", "abstract", "as", "asserts", "assert", "any", "boolean", "constructor", "declare",
    "infer", "intrinsic", "is", "keyof", "module", "namespace", "never", "out", "readonly",
    "require", "number", "object", "satisfies", "string", "symbol", "type", "undefined",
    "unique", "using", "unknown", "global", "bigint", "override", "implements", "interface",
    "let", "package", "private", "protected", "public", "static", "yield"]

namespace Token

/-- The token is a punctuator with some text. -/
def isPunctuator (token : Token) (text : String) : Bool :=
  token.kind == .punctuator && token.text == text

/-- The token is a word with some text. -/
def isWord (token : Token) (text : String) : Bool :=
  token.kind == .word && token.text == text

/-- Whether the token is a word that never stands for a variable. -/
def isReserved (token : Token) : Bool :=
  token.kind == .word && reservedWords.contains token.text

/-- Whether the token is a word with a meaning of its own. -/
def isKeyword (token : Token) : Bool :=
  token.kind == .word &&
    (reservedWords.contains token.text || contextualWords.contains token.text)

/-- Whether the token can stand for a variable. -/
def isIdentifier (token : Token) : Bool :=
  token.kind == .word && !reservedWords.contains token.text

/-- The token begins a template. -/
def opensTemplate (token : Token) : Bool :=
  match token.kind with
  | .template true _ => true
  | _ => false

/-- The token is a literal that can name a property. -/
def isNumberOrString (token : Token) : Bool :=
  match token.kind with
  | .number _ => true
  | .string => true
  | _ => false

/-- Whether nothing more can be read at this token. -/
def isStuck (token : Token) : Bool :=
  token.kind == .endOfText || token.kind == .unknown

/-- What messages call the token. -/
def describe (token : Token) : String :=
  match token.kind with
  | .endOfText => "EOF"
  | .unknown => "Unknown"
  | .word => if token.isKeyword then token.text else "Identifier"
  | .punctuator => token.text
  | .privateName => "#identifier"
  | .number .decimal => "decimal"
  | .number .float => "float"
  | .number .exponential => "exponential"
  | .number .binary => "binary"
  | .number .octal => "octal"
  | .number .hexadecimal => "hex"
  | .string => "string"
  | .template true true => "$\x7b\x7d"
  | .template true false => "$\x7b"
  | .template false false => "$\x7bexpr\x7d"
  | .template false true => "\x7d"
  | .regularExpression => "/regexp/"

end Token
end Script
end FeatureProbes
