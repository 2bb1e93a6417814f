import FeatureProbes.Build.Css

/-!
# Tests of built-in objects

Built-in objects and their members are listed by their dotted names.  A member is looked for on the
object itself, not on what the object inherits from.  A built-in object with arguments gets a
second test, which makes or calls it.  The segments for prototypes do not show in the paths.
-/

namespace FeatureProbes
namespace Build

open Json (Record Value)
open Probe (CompiledTest MemberRef Table TestCode)

/-- What is listed of a built-in object. -/
structure Builtin where
  /-- The arguments to make it with. -/
  arguments : Option String
  /-- Whether it is made and not called, which is so unless the list says otherwise. -/
  isMade : Option Bool
  deriving Repr, DecidableEq

/-- Built-in objects by their dotted names. -/
abbrev Builtins := SortedMap Builtin

/-- The built-in object that a value stands for. -/
def Builtin.ofValue? (value : Value) : Option Builtin := do
  let record ← Record.ofValue? ["ctor_args", "ctor_new"] value
  let arguments ← record.nullable? "ctor_args" Value.string?
  let isMade ← record.nullable? "ctor_new" Value.bool?
  return ⟨arguments, isMade⟩

/-- The built-in objects that a document lists. -/
def Builtins.ofValue? (value : Value) : Option Builtins := do
  let record ← Record.ofValue? ["builtins"] value
  record.optional? "builtins" (Value.map? Builtin.ofValue?) .empty

/-- Where the name of an object ends and the name of its member begins: after the first segment
for a prototype, else before the last segment. -/
def memberIndex (segments : List String) : Nat :=
  match segments.findIdx? (· = "prototype") with
  | some index => index + 1
  | none => segments.length - 1

/-- The member that a dotted name of several segments stands for. -/
def builtinMember? (segments : List String) : Option MemberRef :=
  if segments.length < 2 then none
  else
    let index := memberIndex segments
    let owner := Text.joinSegments (segments.take index)
    let property := Text.joinSegments (segments.drop index)
    match Text.dropStart? "@@" property with
    | some symbol => some (.of owner ("Symbol." ++ symbol))
    | none => some (.own owner property)

/-- The look at a built-in object: as a member of the object that its first segments name, or as a
property of the global object if it has one segment. -/
def builtinProbe (name : String) : TestCode :=
  match builtinMember? (Text.segments name) with
  | some ref => .member ref
  | none => .raw ("self.hasOwnProperty(" ++ Text.quoted name ++ ")")

/-- The check that an object is there. -/
def builtinGuard (name : String) : String :=
  let segments := Text.segments name
  if segments.length < 2 then Text.quoted name ++ " in self"
  else
    MemberRef.code (.of (Text.joinSegments segments.dropLast) (segments.getLastD ""))

/-- The expression that makes or calls an object. -/
def builtinCall (name : String) (builtin : Builtin) (arguments : String) : String :=
  let call := name ++ "(" ++ arguments ++ ")"
  if builtin.isMade = some false then call else "new " ++ call

/-- The probe that makes or calls an object. -/
def constructorProbe (name : String) (builtin : Builtin) (arguments : String) : TestCode :=
  .raw (Script.wrap
    ("if (!(" ++ builtinGuard name ++ ")) \x7b\n  return \x7bresult: false, message: " ++
      Text.quoted (name ++ " is not defined") ++ "\x7d;\n\x7d\nreturn !!" ++
      builtinCall name builtin arguments ++ ";"))

/-- The segments of a dotted name that show in a path. -/
def visibleSegments (name : String) : List String :=
  (Text.segments name).filter fun segment => segment ≠ "prototype"

/-- The path of a built-in object, in which prototypes do not show. -/
def builtinPath (name : String) : String :=
  "javascript.builtins." ++ Text.joinSegments (visibleSegments name)

/-- The path and the probe that makes or calls an object, if it has arguments and a name that
shows. -/
def constructorProbes (name : String) (builtin : Builtin) : List (String × TestCode) :=
  match builtin.arguments, (visibleSegments name).getLast? with
  | some arguments, some last =>
      [(builtinPath name ++ "." ++ last, constructorProbe name builtin arguments)]
  | _, _ => []

/-- The paths and probes of built-in objects. -/
def builtinProbes (builtins : Builtins) : List (String × TestCode) :=
  builtins.entries.flatMap fun (name, builtin) =>
    (builtinPath name, builtinProbe name) :: constructorProbes name builtin

/-- The tests of built-in objects, which are run in the given scopes. -/
def builtinTable (builtins : Builtins) (catalog : Catalog) (exposure : List String) :
    Reporting Table := do
  let tests ← (builtinProbes builtins).mapM fun (path, code) =>
    testAt catalog exposure path code
  return Table.ofTests tests

end Build
end FeatureProbes
