import FeatureProbes.Json.Value

/-!
# Printing data documents

The text of a value, without blanks.
-/

namespace FeatureProbes
namespace Json
namespace Value

/-- The text of a whole number. -/
def integerText (n : Int) : List Char :=
  if n < 0 then '-' :: Nat.toDigits 10 n.natAbs else Nat.toDigits 10 n.natAbs

mutual

/-- The text of a value. -/
def render : Value → List Char
  | null => "null".toList
  | bool true => "true".toList
  | bool false => "false".toList
  | integer n => integerText n
  | decimal spelling => spelling.toList
  | string s => Text.quote s.toList
  | array items => '[' :: renderItems items ++ [']']
  | object members => '\x7b' :: renderMembers members ++ ['\x7d']

/-- The texts of items, with commas between them. -/
def renderItems : List Value → List Char
  | [] => []
  | [item] => render item
  | item :: more => render item ++ ',' :: renderItems more

/-- The texts of members, with commas between them. -/
def renderMembers : List (String × Value) → List Char
  | [] => []
  | [(name, value)] => Text.quote name.toList ++ ':' :: render value
  | (name, value) :: more =>
      Text.quote name.toList ++ ':' :: render value ++ ',' :: renderMembers more

end

/-- The text of a value. -/
def toText (value : Value) : String :=
  String.ofList value.render

end Value
end Json
end FeatureProbes
