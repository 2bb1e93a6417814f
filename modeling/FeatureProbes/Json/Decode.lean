import FeatureProbes.Json.Value

/-!
# Decoding values

How the values of data documents become values of the types of the library.  A record is an
object, or an array that lists its fields in order; a field may be left out if it has a default.
A choice is a string, or an object with one member whose name is the choice.
-/

namespace FeatureProbes
namespace Json
namespace Value

/-- The text of a string. -/
def string? : Value → Option String
  | string s => some s
  | _ => none

/-- A truth value. -/
def bool? : Value → Option Bool
  | bool b => some b
  | _ => none

/-- A whole number below 2 ^ 32. -/
def uint32? : Value → Option UInt32
  | integer n => if 0 ≤ n ∧ n < 4294967296 then some (UInt32.ofNat n.toNat) else none
  | _ => none

/-- A list, each item decoded. -/
def list? {α : Type} (item : Value → Option α) : Value → Option (List α)
  | array items => items.mapM item
  | _ => none

/-- The strings that a value lists. -/
def strings? : Value → Option (List String) :=
  list? string?

/-- A map, each value decoded; of members with the same name the last one stays. -/
def map? {α : Type} (item : Value → Option α) : Value → Option (SortedMap α)
  | object members => do
      let entries ← members.mapM fun (name, value) => do return (name, ← item value)
      return SortedMap.ofList entries
  | _ => none

/-- What a value stands for, if it is not null. -/
def nullable? {α : Type} (item : Value → Option α) : Value → Option (Option α)
  | null => some none
  | value => (item value).map some

/-- A choice and what belongs to it. -/
def choice? : Value → Option (String × Option Value)
  | string s => some (s, none)
  | object [(name, value)] => some (name, some value)
  | _ => none

/-- A choice to which nothing belongs. -/
def plainChoice? (value : Value) : Option String := do
  match ← choice? value with
  | (name, none) => some name
  | (name, some null) => some name
  | _ => none

end Value

/-- The fields of a record. -/
abbrev Record := List (String × Value)

namespace Record

/-- Whether one of the given names occurs twice. -/
def repeats (names : List String) (members : List (String × Value)) : Bool :=
  names.any fun name => members.countP (fun member => member.1 == name) > 1

/-- The fields of a record with these names.  Other members do not matter. -/
def ofValue? (names : List String) : Value → Option Record
  | .object members => if repeats names members then none else some members
  | .array items => if items.length > names.length then none else some (names.zip items)
  | _ => none

/-- The value of a field. -/
def get? (record : Record) (name : String) : Option Value :=
  (record.find? fun field => field.1 == name).map Prod.snd

/-- A field that must be there. -/
def required? {α : Type} (record : Record) (name : String) (item : Value → Option α) :
    Option α := do
  item (← record.get? name)

/-- A field that has a default. -/
def optional? {α : Type} (record : Record) (name : String) (item : Value → Option α)
    (default : α) : Option α :=
  match record.get? name with
  | none => some default
  | some value => item value

/-- A field that may be left out or null. -/
def nullable? {α : Type} (record : Record) (name : String) (item : Value → Option α) :
    Option (Option α) :=
  record.optional? name (Value.nullable? item) none

end Record
end Json
end FeatureProbes
