import FeatureProbes.SortedMap
import FeatureProbes.Text.Quoted

/-!
# Values of data documents

The values of the JSON data format.  An object keeps its members in the order of the text, with
repeated names, because some readers refuse a repeated name and others take the last one.  Whole
numbers are apart from numbers with a fraction, an exponent or a sign before zero.
-/

namespace FeatureProbes
namespace Json

/-- A value of a data document. -/
inductive Value where
  | null
  | bool (value : Bool)
  /-- A whole number. -/
  | integer (value : Int)
  /-- Any other number, by its spelling. -/
  | decimal (spelling : String)
  | string (value : String)
  | array (items : List Value)
  | object (members : List (String × Value))
  deriving Repr

namespace Value

mutual

/-- Keep of members with the same name only the last one, everywhere, and sort by name. -/
def normalize : Value → Value
  | array items => array (normalizeItems items)
  | object members => object (SortedMap.ofList (normalizeMembers members)).entries
  | value => value

def normalizeItems : List Value → List Value
  | [] => []
  | item :: more => normalize item :: normalizeItems more

def normalizeMembers : List (String × Value) → List (String × Value)
  | [] => []
  | (name, value) :: more => (name, normalize value) :: normalizeMembers more

end

mutual

/-- How many arrays and objects are nested in a value. -/
def depth : Value → Nat
  | array items => depthOfItems items + 1
  | object members => depthOfMembers members + 1
  | _ => 0

def depthOfItems : List Value → Nat
  | [] => 0
  | item :: more => max (depth item) (depthOfItems more)

def depthOfMembers : List (String × Value) → Nat
  | [] => 0
  | (_, value) :: more => max (depth value) (depthOfMembers more)

end

/-- The member of a name, the last one if there are several. -/
def member? (value : Value) (name : String) : Option Value :=
  match value with
  | object members => (members.reverse.find? fun member => member.1 = name).map Prod.snd
  | _ => none

end Value
end Json
end FeatureProbes
