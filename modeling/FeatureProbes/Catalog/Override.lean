import FeatureProbes.Catalog.Import
import FeatureProbes.Text.Affix

/-!
# Custom tests

What a catalog puts in place of the tests that are made without it.  The code of a test is setup
code, the code of the node itself, and a test, with their imports expanded, in a function that
calls itself.  Code that is no script is noted and replaced by code that throws, so one broken test
does not stop a build.
-/

namespace FeatureProbes

/-- How a member is probed. -/
inductive ProbeKind where
  | property
  | static
  | constructor
  | symbol
  deriving Repr, DecidableEq

namespace Catalog

/-- What a catalog says about a test. -/
structure Override where
  /-- The code, unless the test that is made without the catalog stands. -/
  test : Option String
  resources : Resources

/-- Nothing that a catalog says. -/
def Override.none : Override := ⟨.none, .empty⟩

/-- The code of a node and the names of its resources. -/
structure NodeData where
  base : Option String
  test : Option String
  resources : List String
  deriving Repr, DecidableEq

/-- What a node that is not there says. -/
def NodeData.none : NodeData := ⟨.none, .none, []⟩

/-- The resources of these names, which a test at a path needs. -/
def findResources (catalog : Catalog) (path : String) (names : List String) :
    Except BuildError Resources := do
  let entries ← names.mapM fun name =>
    match catalog.resource? name with
    | some resource => .ok (name, resource)
    | .none => .error (BuildError.undefinedResource name path)
  return .ofList entries

/-- The data of the node at a path, whose resources must be in the table. -/
def data (catalog : Catalog) (path : String) : Except BuildError NodeData :=
  match catalog.node? path with
  | .none => .ok .none
  | some node => do
      let _ ← catalog.findResources path node.resources
      return ⟨node.base, node.test, node.resources⟩

/-- Wrap the body of a test.  A body that is no script becomes one that throws the reason. -/
def finish (path body : String) : Reporting String :=
  match Script.fault? (Script.wrap body) with
  | .none => pure (Script.wrap body)
  | some fault => do
      let message := "Test is malformed: " ++ fault.message
      Reporting.report "P-DIAG-MALFORMED" path message
      return Script.wrap (Script.throwing message)

/-- Expand the imports of code, if there is some. -/
def expand? (catalog : Catalog) (origin : String) (code : Option String) :
    Reporting (Option String) :=
  match code with
  | .none => pure .none
  | some code => some <$> catalog.expand origin code

/-- The body of a node alone: its setup code before its test, where it has any of them. -/
def ownBody (catalog : Catalog) (path : String) (node : NodeData) :
    Reporting (Option String) := do
  let base ← catalog.expand? path node.base
  let test ← catalog.expand? path node.test
  match base, test with
  | .none, .none => return .none
  | some base, .none => return some base
  | base, some test => return some (Script.join [base.getD "", test])

/-- The test of the node at a path on its own. -/
def test (catalog : Catalog) (path : String) : Reporting Override := do
  let node ← Reporting.ofExcept (catalog.data path)
  let resources ← Reporting.ofExcept (catalog.findResources path node.resources)
  match ← catalog.ownBody path node with
  | .none => return ⟨.none, resources⟩
  | some body => return ⟨some (← finish path body), resources⟩

/-- The end of a test that asserts something about the instance of its setup code, according to
how the setup code hands the instance over. -/
def instanceAssertion (shape : Script.Shape) (assertion : String) : String :=
  if shape.promise then
    "if (!promise) \x7b\n  return \x7bresult: false, message: \"promise is falsy\"\x7d;\n\x7d\n" ++
      "return promise.then(function (instance) \x7b\n  return " ++ assertion ++ ";\n\x7d);"
  else if shape.callback then
    "function callback(instance) \x7b\n  try \x7b\n    success(" ++ assertion ++
      ");\n  \x7d catch (e) \x7b\n    fail(e);\n  \x7d\n\x7d\nreturn \"callback\";"
  else "return " ++ assertion ++ ";"

/-- What is asserted about the instance where a member is probed. -/
def memberAssertion (kind : ProbeKind) (member : String) : String :=
  match kind with
  | .symbol =>
      let symbol := String.ofList (Text.dropAtSigns member.toList)
      "!!instance && \"Symbol\" in self && \"" ++ symbol ++ "\" in Symbol && Symbol." ++ symbol ++
        " in instance"
  | _ => "!!instance && \"" ++ member ++ "\" in instance"

/-- Setup code and an assertion about its instance. -/
def instanceTest (base assertion : String) : String :=
  Script.join [base, instanceAssertion (Script.Shape.ofCode base) assertion]

/-- The path of the node of an interface. -/
def interfacePath (name : String) : String := "api." ++ name

/-- The body of the test of an interface, whose expanded setup code is given. -/
def interfaceBody (catalog : Catalog) (path : String) (node : Node) (base : Option String) :
    Reporting (Option String) := do
  match node.test, base with
  | some test, base => return some (Script.join [base.getD "", ← catalog.expand path test])
  | .none, some base => return some (instanceTest base "!!instance")
  | .none, .none => return .none

/-- What the catalog says about an interface.  Its resources are kept where it has no body. -/
def interfaceTest (catalog : Catalog) (interface : String) : Reporting Override := do
  let path := interfacePath interface
  match catalog.node? path with
  | .none => return .none
  | some node =>
      let resources ← Reporting.ofExcept (catalog.findResources path node.resources)
      let base ← catalog.expand? path node.base
      match ← catalog.interfaceBody path node base with
      | .none => return ⟨.none, resources⟩
      | some body => return ⟨some (← finish path body), resources⟩

/-- The body of a test with the code of a node below an interface. -/
def childBody (catalog : Catalog) (path : String) (base : Option String) (child : Node)
    (test : String) : Reporting String := do
  let own ← catalog.expand? path child.base
  let test ← catalog.expand path test
  return Script.join [base.getD "", own.getD "", test]

/-- The body of the test of a member that has no test of its own.  Members that are reached without
an instance are not tested on one. -/
def inheritedBody (kind : ProbeKind) (member : String) (base : Option String) : Option String :=
  if kind = .static then .none
  else base.map fun base => instanceTest base (memberAssertion kind member)

/-- The body for a member.  A child that has no test of its own is tested on the instance of the
interface, unless it asks for the default. -/
def memberBody (catalog : Catalog) (path member : String) (kind : ProbeKind)
    (base : Option String) (child : Option Node) : Reporting (Option String) := do
  match child with
  | some child =>
      if child.useDefault then return .none
      else
        match child.test with
        | some test => return some (← catalog.childBody path base child test)
        | .none => return inheritedBody kind member base
  | .none => return inheritedBody kind member base

/-- The test of a member of an interface.  Constructors are never tested through a catalog. -/
def memberTest (catalog : Catalog) (interface member : String) (kind : ProbeKind) :
    Reporting Override := do
  let owner := interfacePath interface
  match catalog.node? owner with
  | .none => return .none
  | some node =>
      let shared ← Reporting.ofExcept (catalog.findResources owner node.resources)
      let base ← catalog.expand? owner node.base
      if kind = .constructor then return .none
      let path := owner ++ "." ++ member
      let child := node.child? member
      let own ←
        match child with
        | some child => Reporting.ofExcept (catalog.findResources path child.resources)
        | .none => pure .empty
      let resources := shared.union own
      match ← catalog.memberBody path member kind base child with
      | .none => return ⟨.none, resources⟩
      | some body => return ⟨some (← finish path body), resources⟩

/-- A test that an author wrote below an interface. -/
structure Subtest where
  /-- The path below the interface. -/
  path : String
  /-- The node whose resources the test needs. -/
  owner : Node
  code : String

/-- The tests of a node below an interface. -/
def childSubtests (known : NameSet) (name : String) (child : Node) : List Subtest :=
  let own :=
    match child.test with
    | some test => if known.contains name then [] else [⟨name, child, test⟩]
    | .none => []
  own ++ child.additional.entries.map fun (sub, code) => ⟨name ++ "." ++ sub, child, code⟩

/-- The tests that authors wrote below an interface for what is none of its known members. -/
def subtestsOf (known : NameSet) (node : Node) : List Subtest :=
  (node.additional.entries.map fun (name, code) => ⟨name, node, code⟩) ++
    node.children.flatMap fun (name, child) => childSubtests known name child

/-- A test that an author wrote below an interface, with the setup code and the resources of the
interface. -/
def subtest (catalog : Catalog) (owner : String) (base : String) (shared : Resources)
    (item : Subtest) : Reporting (String × Override) := do
  let path := owner ++ "." ++ item.path
  let own ← Reporting.ofExcept (catalog.findResources path item.owner.resources)
  let code ← catalog.expand path item.code
  let test ← finish path (Script.join [base, code])
  return (item.path, ⟨some test, shared.union own⟩)

/-- The tests that authors wrote below an interface for what is none of its known members, by their
paths below the interface. -/
def subtests (catalog : Catalog) (interface : String) (known : NameSet) :
    Reporting (SortedMap Override) := do
  let owner := interfacePath interface
  match catalog.node? owner with
  | .none => return .empty
  | some node =>
      let shared ← Reporting.ofExcept (catalog.findResources owner node.resources)
      let base ← catalog.expand? owner node.base
      let entries ← (subtestsOf known node).mapM (catalog.subtest owner (base.getD "") shared)
      return .ofList entries

end Catalog
end FeatureProbes
