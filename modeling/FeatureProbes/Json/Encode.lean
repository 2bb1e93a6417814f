import FeatureProbes.Json.Value

/-!
# Encoding values

How values of simple types become values of data documents.
-/

namespace FeatureProbes
namespace Json
namespace Value

/-- A list, each item encoded. -/
def ofList {α : Type} (item : α → Value) (items : List α) : Value :=
  .array (items.map item)

/-- The value that lists strings. -/
def ofStrings (items : List String) : Value :=
  ofList .string items

/-- Null, or a value. -/
def ofOption {α : Type} (item : α → Value) : Option α → Value
  | none => .null
  | some a => item a

/-- A string or null. -/
def ofString? (value : Option String) : Value :=
  ofOption .string value

/-- A whole number below 2 ^ 32. -/
def ofUInt32 (n : UInt32) : Value :=
  .integer n.toNat

/-- A map, each value encoded. -/
def ofMap {α : Type} (item : α → Value) (map : SortedMap α) : Value :=
  .object (map.entries.map fun entry => (entry.1, item entry.2))

/-- A choice and what belongs to it. -/
def choice (name : String) (value : Value) : Value :=
  .object [(name, value)]

end Value
end Json
end FeatureProbes
