import FeatureProbes.Script.Fault
import FeatureProbes.Script.Name
import FeatureProbes.Script.StringLiteral
import FeatureProbes.Script.Token

/-!
# Lexemes of scripts

The reader of each kind of token, one function per kind.  A reader gets the text at the first
character of the token and gives the characters it took, what they stand for and the text after
them; taken characters and remaining text together are the text it got.
-/

namespace FeatureProbes
namespace Script

/-- The characters of one token, with what they stand for. -/
structure Lexeme where
  kind : TokenKind
  text : String
  /-- The characters of the token. -/
  spelling : List Char
  rest : List Char
  escaped : Bool
  badEscape : Bool
  faults : List Fault
  deriving Repr, DecidableEq

/-- A lexeme that stands for its own characters. -/
def Lexeme.plain (kind : TokenKind) (spelling rest : List Char) : Lexeme :=
  ⟨kind, String.ofList spelling, spelling, rest, false, false, []⟩

/-- Characters that form no token. -/
def Lexeme.failed (fault : Fault) (spelling rest : List Char) : Lexeme :=
  ⟨.unknown, String.ofList spelling, spelling, rest, false, false, [fault]⟩

/-! ## Words -/

/-- How far an escape in a name has been read. -/
inductive NameMode where
  | plain
  | started
  | unicode
  | unit (left value : Nat)
  | point (value : Option Nat)
  deriving Repr, DecidableEq

/-- The characters of a name from some place on. -/
structure NameRead where
  name : List Char
  spelling : List Char
  rest : List Char
  fault : Option Fault
  deriving Repr, DecidableEq

/-- Put one character in front, with what it adds to the name. -/
def NameRead.cons (c : Char) (name : List Char) (read : NameRead) : NameRead :=
  ⟨name ++ read.name, c :: read.spelling, read.rest, read.fault⟩

/-- The character that an escape puts into a name, if it may stand there. -/
def nameChar? (first : Bool) (value : Nat) : Option Char :=
  if 0xD800 ≤ value && value ≤ 0xDFFF then none
  else
    let c := Char.ofNat value
    if (if first then isNameStart c else isNamePart c) then some c else none

/-- The fault of an escape that puts no possible character into a name. -/
def nameCharFault (value : Nat) : Fault :=
  if 0xD800 ≤ value && value ≤ 0xDFFF then .invalidUnicodeEscape
  else .invalidCharacter (Char.ofNat value)

/-- Read a name; a bad escape ends it. -/
def readName : NameMode → Bool → List Char → NameRead
  | .plain, _, [] => ⟨[], [], [], none⟩
  | _, _, [] => ⟨[], [], [], some .invalidUnicodeEscape⟩
  | .plain, first, c :: rest =>
      if (if first then isNameStart c else isNamePart c) then
        (readName .plain false rest).cons c [c]
      else if c == '\\' then (readName .started first rest).cons c []
      else ⟨[], [], c :: rest, none⟩
  | .started, first, c :: rest =>
      if c == 'u' then (readName .unicode first rest).cons c []
      else ⟨[], [], c :: rest, some .invalidUnicodeEscape⟩
  | .unicode, first, c :: rest =>
      if c == '\x7b' then (readName (.point none) first rest).cons c []
      else match Text.hexValue? c with
        | none => ⟨[], [], c :: rest, some .invalidUnicodeEscape⟩
        | some digit => (readName (.unit 3 digit) first rest).cons c []
  | .unit left value, first, c :: rest =>
      match Text.hexValue? c with
      | none => ⟨[], [], c :: rest, some .invalidUnicodeEscape⟩
      | some digit =>
          if left ≤ 1 then
            match nameChar? first (value * 16 + digit) with
            | some d => (readName .plain false rest).cons c [d]
            | none => ⟨[], [c], rest, some (nameCharFault (value * 16 + digit))⟩
          else (readName (.unit (left - 1) (value * 16 + digit)) first rest).cons c []
  | .point value, first, c :: rest =>
      match Text.hexValue? c, value with
      | some digit, none => (readName (.point (some digit)) first rest).cons c []
      | some digit, some before =>
          if before * 16 + digit > 0x10FFFF then
            ⟨[], [c], rest, some .invalidUnicodeEscape⟩
          else (readName (.point (some (before * 16 + digit))) first rest).cons c []
      | none, some code =>
          if c == '\x7d' then
            match nameChar? first code with
            | some d => (readName .plain false rest).cons c [d]
            | none => ⟨[], [c], rest, some (nameCharFault code)⟩
          else ⟨[], [], c :: rest, some .invalidUnicodeEscape⟩
      | none, none => ⟨[], [], c :: rest, some .invalidUnicodeEscape⟩

/-- The lexeme of a name that stands behind some characters. -/
def NameRead.toLexeme (read : NameRead) (kind : TokenKind) (leading : List Char) : Lexeme :=
  ⟨kind, String.ofList read.name, leading ++ read.spelling, read.rest,
    read.spelling.contains '\\', false, read.fault.toList⟩

/-- A word: a name or a keyword. -/
def readWord (text : List Char) : Lexeme :=
  (readName .plain true text).toLexeme .word []

/-- A private name, after its number sign. -/
def readPrivateName (text : List Char) : Lexeme :=
  match text with
  | [] => .failed .unexpectedEnd ['#'] []
  | c :: rest =>
      if isNameStart c || c == '\\' then
        (readName .plain true text).toLexeme .privateName ['#']
      else .failed (.invalidCharacter c) ['#', c] rest

/-! ## Numbers -/

/-- Characters taken from a text. -/
structure Taken where
  spelling : List Char
  rest : List Char
  fault : Option Fault
  deriving Repr, DecidableEq

/-- Put a character in front of the taken ones. -/
def Taken.cons (c : Char) (taken : Taken) : Taken :=
  { taken with spelling := c :: taken.spelling }

/-- Go on taking; the earlier fault stays. -/
def Taken.andThen (first : Taken) (next : List Char → Taken) : Taken :=
  let second := next first.rest
  ⟨first.spelling ++ second.spelling, second.rest, first.fault.or second.fault⟩

/-- The reader that takes nothing. -/
def takeNothing (text : List Char) : Taken :=
  ⟨[], text, none⟩

/-- The fault where a digit had to stand. -/
def missingDigit (text : List Char) : Fault :=
  match text with
  | [] => .unexpectedEnd
  | c :: _ => .invalidCharacter c

/-- Digits after a digit; single low lines may stand between them. -/
def moreDigits (isDigit : Char → Bool) : List Char → Taken
  | [] => takeNothing []
  | c :: rest =>
      if isDigit c then (moreDigits isDigit rest).cons c
      else if c == '_' then
        match rest with
        | d :: more =>
            if isDigit d then ((moreDigits isDigit more).cons d).cons c
            else ⟨[c], rest, some (missingDigit rest)⟩
        | [] => ⟨[c], [], some .unexpectedEnd⟩
      else takeNothing (c :: rest)

/-- At least one digit. -/
def someDigits (isDigit : Char → Bool) (text : List Char) : Taken :=
  match text with
  | c :: rest =>
      if isDigit c then (moreDigits isDigit rest).cons c
      else ⟨[], text, some (missingDigit text)⟩
  | [] => ⟨[], [], some .unexpectedEnd⟩

/-- Digits if there are any. -/
def anyDigits (text : List Char) : Taken :=
  match text with
  | c :: rest => if c.isDigit then (moreDigits Char.isDigit rest).cons c else takeNothing text
  | [] => takeNothing []

/-- The exponent of a number, after its letter. -/
def exponentDigits (text : List Char) : Taken :=
  match text with
  | c :: rest =>
      if c == '+' || c == '-' then (someDigits Char.isDigit rest).cons c
      else someDigits Char.isDigit text
  | [] => ⟨[], [], some .unexpectedEnd⟩

/-- An exponent if there is one. -/
def anyExponent (text : List Char) : Taken :=
  match text with
  | c :: rest =>
      if c == 'e' || c == 'E' then (exponentDigits rest).cons c else takeNothing text
  | [] => takeNothing []

/-- The letter that makes a whole number a big one, if it is there. -/
def anyBigMark (text : List Char) : Taken :=
  match text with
  | c :: rest => if c == 'n' then ⟨[c], rest, none⟩ else takeNothing text
  | [] => takeNothing []

/-- The lexeme of a number; neither a digit nor the start of a name may follow it. -/
def Taken.toNumber (taken : Taken) (form : NumberForm) (checked : Bool) : Lexeme :=
  let number := Lexeme.plain (.number form) taken.spelling taken.rest
  match taken.rest with
  | c :: rest =>
      if checked && (c.isDigit || isNameStart c) then
        let more := rest.takeWhile isNameStart
        ⟨.unknown, "", taken.spelling ++ c :: more, rest.dropWhile isNameStart, false, false,
          taken.fault.toList ++ [.invalidNumberEnd]⟩
      else { number with faults := taken.fault.toList }
  | [] => { number with faults := taken.fault.toList }

/-- The fraction and exponent of a number, after the point. -/
def afterPoint (before : Taken) : Lexeme :=
  ((before.andThen anyDigits).andThen anyExponent).toNumber .float true

/-- A number in a base other than ten, after its mark. -/
def basedNumber (form : NumberForm) (isDigit : Char → Bool) (mark : Char)
    (text : List Char) : Lexeme :=
  let digits := ((someDigits isDigit text).cons mark).cons '0'
  match digits.fault with
  | some fault => .failed fault digits.spelling digits.rest
  | none => (digits.andThen anyBigMark).toNumber form true

/-- A number that begins with its point. -/
def pointNumber (text : List Char) : Lexeme :=
  (((someDigits Char.isDigit text).cons '.').andThen anyExponent).toNumber .float true

/-- The digits of a whole number that begins with a zero and a digit. -/
def zeroNumber (text : List Char) : Lexeme :=
  let digits := '0' :: text.takeWhile Char.isDigit
  let taken : Taken := ⟨digits, text.dropWhile Char.isDigit, none⟩
  if digits.all fun c => (octalValue? c).isSome then taken.toNumber .octal true
  else match taken.rest with
    | c :: rest =>
        if c == '.' then afterPoint ⟨digits ++ [c], rest, none⟩
        else if c == 'e' || c == 'E' then
          (Taken.andThen ⟨digits ++ [c], rest, none⟩ exponentDigits).toNumber .exponential false
        else taken.toNumber .decimal true
    | [] => taken.toNumber .decimal true

/-- A number that begins with a digit. -/
def readNumber (c : Char) (text : List Char) : Lexeme :=
  let whole : Taken := (moreDigits Char.isDigit text).cons c
  let other : Unit → Lexeme := fun _ =>
    match whole.rest with
    | d :: rest =>
        if d == '.' then afterPoint { whole with spelling := whole.spelling ++ [d], rest := rest }
        else if d == 'n' then (whole.andThen anyBigMark).toNumber .decimal true
        else if d == 'e' || d == 'E' then
          (whole.andThen anyExponent).toNumber .exponential true
        else whole.toNumber .decimal true
    | [] => whole.toNumber .decimal true
  if c == '0' then
    match text with
    | d :: rest =>
        if d == 'b' || d == 'B' then
          basedNumber .binary (fun e => e == '0' || e == '1') d rest
        else if d == 'o' || d == 'O' then
          basedNumber .octal (fun e => (octalValue? e).isSome) d rest
        else if d == 'x' || d == 'X' then
          basedNumber .hexadecimal (fun e => (Text.hexValue? e).isSome) d rest
        else if d == 'e' || d == 'E' then
          (Taken.andThen ⟨[c, d], rest, none⟩ exponentDigits).toNumber .exponential false
        else if d == '.' then afterPoint ⟨[c, d], rest, none⟩
        else if d == 'n' then Taken.toNumber ⟨[c, d], rest, none⟩ .decimal true
        else if d.isDigit then zeroNumber text
        else Taken.toNumber ⟨[c], text, none⟩ .decimal true
    | [] => Lexeme.plain (.number .decimal) [c] []
  else other ()

/-! ## Strings and templates -/

/-- A string, after its opening quote. -/
def readString (mark : Char) (text : List Char) : Lexeme :=
  let read := readText false mark .plain text
  let faults := if read.bad then [Fault.invalidEscape] else []
  match read.ending with
  | .unterminated =>
      ⟨.unknown, "", mark :: read.spelling, read.rest, false, false,
        faults ++ [.unterminatedString]⟩
  | _ =>
      ⟨.string, String.ofList read.value, mark :: read.spelling, read.rest, false, read.bad,
        faults⟩

/-- A piece of a template, after the mark that begins it. -/
def readTemplate (opens : Bool) (mark : Char) (text : List Char) : Lexeme :=
  let read := readText true '\x60' .plain text
  match read.ending with
  | .unterminated => .failed .unterminatedString (mark :: read.spelling) read.rest
  | .closed =>
      ⟨.template opens true, String.ofList read.value, mark :: read.spelling, read.rest, false,
        read.bad, []⟩
  | .substitution =>
      ⟨.template opens false, String.ofList read.value, mark :: read.spelling, read.rest, false,
        read.bad, []⟩

/-! ## Regular expressions -/

/-- The pattern of a regular expression up to and with the closing slash. -/
def readPattern : Bool → Bool → List Char → Taken
  | _, _, [] => ⟨[], [], some .unterminatedRegularExpression⟩
  | inClass, escaped, c :: rest =>
      if c == '\n' || c == '\r' || c.toNat == 0x2028 || c.toNat == 0x2029 then
        ⟨[c], rest, some .unterminatedRegularExpression⟩
      else if escaped then (readPattern inClass false rest).cons c
      else if c == '/' && !inClass then ⟨[c], rest, none⟩
      else if c == '[' then (readPattern true false rest).cons c
      else if c == ']' then (readPattern false false rest).cons c
      else (readPattern inClass (c == '\\') rest).cons c

/-- The flags of regular expressions. -/
def patternFlags : List Char := ['d', 'g', 'i', 'm', 's', 'u', 'v', 'y']

/-- The faults of a row of flags, given the flags before it. -/
def flagFaults : List Char → List Char → List Fault
  | _, [] => []
  | seen, flag :: more =>
      if !patternFlags.contains flag then .unexpectedFlag flag :: flagFaults seen more
      else if seen.contains flag then .repeatedFlag flag :: flagFaults seen more
      else flagFaults (flag :: seen) more

/-- The characters that are taken for flags, whether or not such a flag exists. -/
def isFlagChar (c : Char) : Bool :=
  c.isAlphanum || c == '$' || c == '_'

/-- A regular expression with its flags, behind the characters that open it. -/
def readRegularExpression (opening text : List Char) : Lexeme :=
  let pattern := readPattern false false text
  let flags := pattern.rest.takeWhile isFlagChar
  let spelling := opening ++ pattern.spelling ++ flags
  ⟨.regularExpression, String.ofList spelling, spelling, pattern.rest.dropWhile isFlagChar,
    false, false, pattern.fault.toList ++ flagFaults [] flags⟩

/-! ## Punctuators -/

/-- The punctuators, longer ones before their beginnings; those that begin with a right angle
bracket are put together later. -/
def punctuators : List String :=
  ["...", "=>", "===", "==", "=", "!==", "!=", "!", "&&=", "&&", "&=", "&", "||=", "||", "|=",
    "|", "??=", "??", "?.", "?", "++", "+=", "+", "--", "-=", "-", "**=", "**", "*=", "*", "/=",
    "/", "%=", "%", "<<=", "<<", "<=", "<", ">", "^=", "^", "~", "(", ")", "[", "]", "\x7b",
    "\x7d", ";", ",", ":", ".", "@"]

/-- The tokens that begin with a right angle bracket, longest first. -/
def rightAngles : List String := [">>>=", ">>=", ">>>", ">>", ">=", ">"]

/-- The first of some texts that the given text begins with. -/
def leading? (candidates : List String) (text : List Char) : Option String :=
  candidates.find? fun candidate => candidate.toList.isPrefixOf text

/-- Whether a text begins with a question mark and a point that are two tokens. -/
def isQuestionPoint (text : List Char) : Bool :=
  match text with
  | '?' :: '.' :: c :: _ => c.isDigit
  | _ => false

/-- A punctuator, or a character that begins no token. -/
def readPunctuator (text : List Char) : Lexeme :=
  match (if isQuestionPoint text then some "?" else leading? punctuators text) with
  | some mark => .plain .punctuator mark.toList (text.drop mark.length)
  | none =>
      match text with
      | c :: rest => .failed (.invalidCharacter c) [c] rest
      | [] => .plain .endOfText [] []

/-! ## Any token -/

/-- The token at the start of a text that begins with neither a blank nor a comment. -/
def readLexeme (text : List Char) : Lexeme :=
  match text with
  | [] => .plain .endOfText [] []
  | c :: rest =>
      if isNameStart c || c == '\\' then readWord text
      else if c.isDigit then readNumber c rest
      else if c == '"' || c == '\'' then readString c rest
      else if c == '\x60' then readTemplate true c rest
      else if c == '#' then readPrivateName rest
      else if c == '.' && (rest.head?.any Char.isDigit) then pointNumber rest
      else readPunctuator text

end Script
end FeatureProbes
