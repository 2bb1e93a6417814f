import FeatureProbes.Json.Value
import FeatureProbes.Text.Quoted

/-!
# Reading data documents

A strict reader: nothing but one value and blanks around it, no comments, no comma after the last
item, no sign before a positive number, no zero before other digits, no raw control character in a
string and no half of a surrogate pair in an escape.  Arrays and objects may be nested up to a
depth of 127.
-/

namespace FeatureProbes
namespace Json

/-- The blanks of data documents. -/
def isBlank (c : Char) : Bool :=
  c == ' ' || c == '\n' || c == '\t' || c == '\r'

/-- A text without the blanks at its start. -/
def skipBlanks : List Char → List Char
  | [] => []
  | c :: rest => if isBlank c then skipBlanks rest else c :: rest

/-- The number that four hexadecimal digits stand for. -/
def hexUnit? (a b c d : Char) : Option Nat := do
  let a ← Text.hexValue? a
  let b ← Text.hexValue? b
  let c ← Text.hexValue? c
  let d ← Text.hexValue? d
  return ((a * 16 + b) * 16 + c) * 16 + d

/-- The character that a backslash before a letter stands for. -/
def escapedChar? (c : Char) : Option Char :=
  match c with
  | '"' => some '"'
  | '\\' => some '\\'
  | '/' => some '/'
  | 'b' => some '\x08'
  | 'f' => some '\x0c'
  | 'n' => some '\n'
  | 'r' => some '\r'
  | 't' => some '\t'
  | _ => none

/-- The characters of a string after its opening quote, and the text after the closing one.  The
first half of a surrogate pair waits for the second half. -/
def readString : Option Nat → List Char → Option (List Char × List Char)
  | _, [] => none
  | high, '\\' :: 'u' :: a :: b :: c :: d :: rest => do
      let code ← hexUnit? a b c d
      match high with
      | some first =>
          if 0xDC00 ≤ code && code ≤ 0xDFFF then
            let (s, rest) ← readString none rest
            return (Char.ofNat (0x10000 + (first - 0xD800) * 0x400 + (code - 0xDC00)) :: s, rest)
          else none
      | none =>
          if 0xD800 ≤ code && code ≤ 0xDBFF then readString (some code) rest
          else if 0xDC00 ≤ code && code ≤ 0xDFFF then none
          else
            let (s, rest) ← readString none rest
            return (Char.ofNat code :: s, rest)
  | some _, _ => none
  | none, '\\' :: c :: rest => do
      let escaped ← escapedChar? c
      let (s, rest) ← readString none rest
      return (escaped :: s, rest)
  | none, c :: rest =>
      if c = '"' then some ([], rest)
      else if c.toNat < 32 then none
      else do
        let (s, rest) ← readString none rest
        return (c :: s, rest)

/-- The number that some decimal digits stand for. -/
def digitsValue (digits : List Char) : Nat :=
  digits.foldl (fun n c => 10 * n + (c.toNat - 48)) 0

/-- Digits of which the first is a zero only if it is the only one, and the text after them. -/
def readWhole (text : List Char) : Option (List Char × List Char) :=
  match text with
  | '0' :: rest => if rest.head?.any Char.isDigit then none else some (['0'], rest)
  | c :: _ =>
      if c.isDigit then some (text.takeWhile Char.isDigit, text.dropWhile Char.isDigit) else none
  | [] => none

/-- The digits after a point, if there is a point. -/
def readFraction (text : List Char) : Option (List Char × List Char) :=
  match text with
  | '.' :: rest =>
      let digits := rest.takeWhile Char.isDigit
      if digits.isEmpty then none else some (digits, rest.dropWhile Char.isDigit)
  | _ => some ([], text)

/-- The sign and digits of an exponent, if there is one. -/
def readExponent (text : List Char) : Option (List Char × List Char) :=
  match text with
  | c :: rest =>
      if c == 'e' || c == 'E' then
        let sign := rest.takeWhile fun d => d == '+' || d == '-'
        let more := rest.drop sign.length
        let digits := more.takeWhile Char.isDigit
        if sign.length > 1 || digits.isEmpty then none
        else some (sign ++ digits, more.dropWhile Char.isDigit)
      else some ([], text)
  | [] => some ([], [])

/-- Whether a number is beyond all numbers of double precision. -/
def isHuge (whole fraction exponent : List Char) : Bool :=
  let digits := (whole ++ fraction).dropWhile (· == '0')
  let size := digitsValue (exponent.filter Char.isDigit)
  let negative := exponent.head? == some '-'
  if digits.isEmpty || negative then false
  else if size > 400 + fraction.length then true
  else
    digitsValue digits * Nat.pow 10 size ≥
      (Nat.pow 2 1024 - Nat.pow 2 970) * Nat.pow 10 fraction.length

/-- A number.  Without fraction and exponent it is an integer, but for negative zero. -/
def readNumber (text : List Char) : Option (Value × List Char) := do
  let negative := text.head? == some '-'
  let (whole, rest) ← readWhole (if negative then text.tail else text)
  let (fraction, rest) ← readFraction rest
  let (exponent, rest) ← readExponent rest
  if isHuge whole fraction exponent then none
  let n := digitsValue whole
  let isWhole := text.length - rest.length == whole.length + (if negative then 1 else 0)
  if isWhole && !(negative && n == 0) then
    return (.integer (if negative then -(n : Int) else n), rest)
  else
    return (.decimal (String.ofList (text.take (text.length - rest.length))), rest)

/-- What follows a word, if a text begins with it. -/
def afterWord? (word : String) (text : List Char) : Option (List Char) :=
  if word.toList.isPrefixOf text then some (text.drop word.length) else none

mutual

/-- A value at the start of a text, and the text after it. -/
def readValue : Nat → Nat → List Char → Option (Value × List Char)
  | 0, _, _ => none
  | rounds + 1, depth, text =>
      match skipBlanks text with
      | '[' :: rest =>
          match depth with
          | 0 => none
          | depth + 1 =>
              match skipBlanks rest with
              | ']' :: rest => some (.array [], rest)
              | rest => do
                  let (items, rest) ← readItems rounds depth rest
                  return (.array items, rest)
      | '\x7b' :: rest =>
          match depth with
          | 0 => none
          | depth + 1 =>
              match skipBlanks rest with
              | '\x7d' :: rest => some (.object [], rest)
              | rest => do
                  let (members, rest) ← readMembers rounds depth rest
                  return (.object members, rest)
      | '"' :: rest => do
          let (s, rest) ← readString none rest
          return (.string (String.ofList s), rest)
      | 'n' :: rest => do return (.null, ← afterWord? "ull" rest)
      | 't' :: rest => do return (.bool true, ← afterWord? "rue" rest)
      | 'f' :: rest => do return (.bool false, ← afterWord? "alse" rest)
      | rest => readNumber rest

/-- The items of an array, and the text after the closing bracket. -/
def readItems : Nat → Nat → List Char → Option (List Value × List Char)
  | 0, _, _ => none
  | rounds + 1, depth, text => do
      let (item, rest) ← readValue rounds depth text
      match skipBlanks rest with
      | ']' :: rest => return ([item], rest)
      | ',' :: rest => do
          let (items, rest) ← readItems rounds depth rest
          return (item :: items, rest)
      | _ => none

/-- The members of an object, and the text after the closing brace. -/
def readMembers : Nat → Nat → List Char → Option (List (String × Value) × List Char)
  | 0, _, _ => none
  | rounds + 1, depth, text => do
      match skipBlanks text with
      | '"' :: rest =>
          let (name, rest) ← readString none rest
          match skipBlanks rest with
          | ':' :: rest =>
              let (value, rest) ← readValue rounds depth rest
              match skipBlanks rest with
              | '\x7d' :: rest => return ([(String.ofList name, value)], rest)
              | ',' :: rest => do
                  let (members, rest) ← readMembers rounds depth rest
                  return ((String.ofList name, value) :: members, rest)
              | _ => none
          | _ => none
      | _ => none

end

/-- How deep arrays and objects may be nested. -/
def maxDepth : Nat := 127

/-- The value that a text consists of, between blanks. -/
def read? (text : String) : Option Value := do
  let chars := text.toList
  let (value, rest) ← readValue (2 * chars.length + 2) maxDepth chars
  if (skipBlanks rest).isEmpty then some value else none

end Json
end FeatureProbes
