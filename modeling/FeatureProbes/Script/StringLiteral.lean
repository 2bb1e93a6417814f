import FeatureProbes.Text.Quoted

/-!
# Strings and templates of scripts

The characters of a string or of a template piece are read one at a time.  A mode remembers an
escape that has begun and not yet ended, so the value of the text and the place of its end come
out of one pass.  An escape without a meaning is noted and reading goes on after it.
-/

namespace FeatureProbes
namespace Script

/-- The value of an octal digit. -/
def octalValue? (c : Char) : Option Nat :=
  let n := c.toNat
  if 48 ≤ n && n ≤ 55 then some (n - 48) else none

/-- How far an escape has been read. -/
inductive EscapeMode where
  /-- Outside of escapes. -/
  | plain
  /-- After the backslash. -/
  | started
  /-- After a carriage return, which takes a line feed with it. -/
  | afterReturn
  /-- In an escape by two hexadecimal digits. -/
  | byte (left value : Nat)
  /-- After a backslash and `u`. -/
  | unicode (high : Option Nat)
  /-- In an escape by four hexadecimal digits. -/
  | unit (left value : Nat) (high : Option Nat)
  /-- Between braces in an escape by a code point. -/
  | point (value : Option Nat)
  /-- After the first half of a surrogate pair. -/
  | afterHigh (high : Nat)
  /-- After the first half of a surrogate pair and a backslash. -/
  | afterHighStarted (high : Nat)
  /-- In an escape by up to three octal digits. -/
  | octal (left value : Nat)
  /-- After a backslash and a zero in a template. -/
  | zero
  deriving Repr, DecidableEq

/-- A code unit as a character; half of a surrogate pair becomes the replacement character. -/
def unitChar (value : Nat) : Char :=
  if 0xD800 ≤ value && value ≤ 0xDFFF then Char.ofNat 0xFFFD else Char.ofNat value

/-- Whether a code unit is the first half of a surrogate pair. -/
def isHighSurrogate (value : Nat) : Bool :=
  0xD800 ≤ value && value ≤ 0xDBFF

/-- Whether a code unit is the second half of a surrogate pair. -/
def isLowSurrogate (value : Nat) : Bool :=
  0xDC00 ≤ value && value ≤ 0xDFFF

/-- The character of a surrogate pair. -/
def pairChar (high low : Nat) : Char :=
  Char.ofNat (0x10000 + (high - 0xD800) * 0x400 + (low - 0xDC00))

/-- What one character adds to the value, and the mode after it. -/
structure EscapeStep where
  mode : EscapeMode
  value : List Char
  bad : Bool
  deriving Repr, DecidableEq

/-- The step at the character behind a backslash. -/
def startedStep (template : Bool) (c : Char) : EscapeStep :=
  if c == '\r' then ⟨.afterReturn, [], false⟩
  else if c == '\n' || c.toNat == 0x2028 || c.toNat == 0x2029 then ⟨.plain, [], false⟩
  else if c == 'b' then ⟨.plain, ['\x08'], false⟩
  else if c == 'f' then ⟨.plain, ['\x0c'], false⟩
  else if c == 'n' then ⟨.plain, ['\n'], false⟩
  else if c == 'r' then ⟨.plain, ['\r'], false⟩
  else if c == 't' then ⟨.plain, ['\t'], false⟩
  else if c == 'v' then ⟨.plain, ['\x0b'], false⟩
  else if c == 'x' then ⟨.byte 2 0, [], false⟩
  else if c == 'u' then ⟨.unicode none, [], false⟩
  else if template && c == '0' then ⟨.zero, [], false⟩
  else if template && c.isDigit then ⟨.plain, [], true⟩
  else match octalValue? c with
    | some value => ⟨.octal (if value ≤ 3 then 2 else 1) value, [], false⟩
    | none => ⟨.plain, [c], false⟩

/-- The mode after a complete code unit that follows a waiting first half, if any. -/
def unitStep (high : Option Nat) (value : Nat) : EscapeStep :=
  match high with
  | some first =>
      if isLowSurrogate value then ⟨.plain, [pairChar first value], false⟩
      else if isHighSurrogate value then ⟨.afterHigh value, [unitChar first], false⟩
      else ⟨.plain, [unitChar first, unitChar value], false⟩
  | none =>
      if isHighSurrogate value then ⟨.afterHigh value, [], false⟩
      else ⟨.plain, [unitChar value], false⟩

/-- The step at a character that belongs to the escape, or nothing if the escape has ended. -/
def escapeStep? (template : Bool) (mode : EscapeMode) (c : Char) : Option EscapeStep :=
  match mode with
  | .plain => none
  | .started => some (startedStep template c)
  | .afterReturn => if c == '\n' then some ⟨.plain, [], false⟩ else none
  | .byte left value =>
      match Text.hexValue? c with
      | none => none
      | some digit =>
          if left ≤ 1 then some ⟨.plain, [Char.ofNat (value * 16 + digit)], false⟩
          else some ⟨.byte (left - 1) (value * 16 + digit), [], false⟩
  | .unicode high =>
      if c == '\x7b' && high.isNone then some ⟨.point none, [], false⟩
      else match Text.hexValue? c with
        | none => none
        | some digit => some ⟨.unit 3 digit high, [], false⟩
  | .unit left value high =>
      match Text.hexValue? c with
      | none => none
      | some digit =>
          if left ≤ 1 then some (unitStep high (value * 16 + digit))
          else some ⟨.unit (left - 1) (value * 16 + digit) high, [], false⟩
  | .point value =>
      match Text.hexValue? c, value with
      | some digit, none => some ⟨.point (some digit), [], false⟩
      | some digit, some before =>
          if before * 16 + digit > 0x10FFFF then some ⟨.plain, [], true⟩
          else some ⟨.point (some (before * 16 + digit)), [], false⟩
      | none, some code => if c == '\x7d' then some ⟨.plain, [unitChar code], false⟩ else none
      | none, none => none
  | .afterHigh high =>
      if c == '\\' then some ⟨.afterHighStarted high, [], false⟩ else none
  | .afterHighStarted high =>
      if c == 'u' then some ⟨.unicode (some high), [], false⟩
      else
        let step := startedStep template c
        some ⟨step.mode, unitChar high :: step.value, step.bad⟩
  | .octal left value =>
      match octalValue? c with
      | none => none
      | some digit =>
          if left ≤ 1 then some ⟨.plain, [Char.ofNat (value * 8 + digit)], false⟩
          else some ⟨.octal (left - 1) (value * 8 + digit), [], false⟩
  | .zero => if c.isDigit then some ⟨.plain, [], true⟩ else none

/-- What an escape stands for that ends before the next character, and whether it is faulty. -/
def escapeEnd (mode : EscapeMode) : List Char × Bool :=
  match mode with
  | .byte _ _ => ([], true)
  | .unicode _ => ([], true)
  | .unit _ _ _ => ([], true)
  | .point _ => ([], true)
  | .afterHigh high => ([unitChar high], false)
  | .octal _ value => ([Char.ofNat value], false)
  | .zero => (['\x00'], false)
  | _ => ([], false)

/-- How a string or a template piece ended. -/
inductive TextEnd where
  /-- At its closing mark. -/
  | closed
  /-- At a dollar sign and an opening brace in a template. -/
  | substitution
  /-- At the end of the line or of the whole text. -/
  | unterminated
  deriving Repr, DecidableEq

/-- A string or template piece after its opening mark. -/
structure TextRead where
  /-- The characters that were read, the closing mark included. -/
  spelling : List Char
  /-- The characters that the text stands for. -/
  value : List Char
  /-- Whether an escape without a meaning occurs. -/
  bad : Bool
  ending : TextEnd
  rest : List Char
  deriving Repr, DecidableEq

/-- Put one character, with what it adds to the value, in front of a reading. -/
def TextRead.cons (c : Char) (value : List Char) (bad : Bool) (read : TextRead) : TextRead :=
  ⟨c :: read.spelling, value ++ read.value, bad || read.bad, read.ending, read.rest⟩

/-- The text up to its mark, or in a template up to a substitution. -/
def readText (template : Bool) (mark : Char) : EscapeMode → List Char → TextRead
  | _, [] => ⟨[], [], false, .unterminated, []⟩
  | mode, c :: rest =>
      match escapeStep? template mode c with
      | some step => (readText template mark step.mode rest).cons c step.value step.bad
      | none =>
          let (pending, bad) := escapeEnd mode
          if c == mark then ⟨[c], pending, bad, .closed, rest⟩
          else if !template && (c == '\n' || c == '\r') then
            ⟨[c], pending, bad, .unterminated, rest⟩
          else if template && c == '$' && rest.head? == some '\x7b' then
            ⟨[c, '\x7b'], pending, bad, .substitution, rest.tail⟩
          else if c == '\\' then (readText template mark .started rest).cons c pending bad
          else if template && c == '\r' then
            (readText template mark .afterReturn rest).cons c (pending ++ ['\n']) bad
          else (readText template mark .plain rest).cons c (pending ++ [c]) bad

end Script
end FeatureProbes
