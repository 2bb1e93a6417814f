import FeatureProbes.Catalog.Resource
import FeatureProbes.Probe.Code

/-!
# Tables of tests

A table has one test at every path.  Where a test is inserted at a path that is taken, the code
that is there stays; the test is then run in the scopes of both and with the resources of both.
-/

namespace FeatureProbes
namespace Probe

open Catalog (Resources)

/-- A test before its code is compiled. -/
structure RawTest where
  code : TestCode
  resources : Resources
  exposure : List String

/-- A test. -/
structure CompiledTest where
  code : String
  /-- The scopes in which the test is run. -/
  exposure : List String
  resources : Option Resources

/-- Tests by their paths. -/
abbrev Table := SortedMap CompiledTest

/-- The compiled test, in which an empty map of resources is left out. -/
def RawTest.compile (test : RawTest) : CompiledTest where
  code := test.code.compile
  exposure := test.exposure
  resources := if test.resources.isEmpty then none else some test.resources

/-- Scopes with those that are not among them, in order. -/
def mergeExposure (existing incoming : List String) : List String :=
  let all := incoming.foldl
    (fun scopes scope => if scopes.contains scope then scopes else scopes ++ [scope]) existing
  all.mergeSort fun a b => a ≤ b

/-- The resources of two tests; of resources with the same name the second one stays. -/
def mergeResources (existing incoming : Option Resources) : Option Resources :=
  match incoming with
  | none => existing
  | some incoming => some ((existing.getD .empty).union incoming)

/-- A test that another one is inserted on. -/
def CompiledTest.merge (existing incoming : CompiledTest) : CompiledTest where
  code := existing.code
  exposure := mergeExposure existing.exposure incoming.exposure
  resources := mergeResources existing.resources incoming.resources

namespace Table

/-- A table with one more test, which is merged into the test at its path. -/
def insertTest (table : Table) (path : String) (test : CompiledTest) : Table :=
  match table.get? path with
  | none => table.insert path test
  | some existing => table.insert path (existing.merge test)

/-- A table with more tests, put in one after the other. -/
def insertTests (table : Table) (tests : List (String × CompiledTest)) : Table :=
  tests.foldl (fun table test => insertTest table test.1 test.2) table

/-- The table of a list of tests. -/
def ofTests (tests : List (String × CompiledTest)) : Table :=
  insertTests SortedMap.empty tests

end Table
end Probe
end FeatureProbes
