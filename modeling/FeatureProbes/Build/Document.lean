import FeatureProbes.Build.Api
import FeatureProbes.Build.Builtins
import FeatureProbes.Catalog.Codec
import FeatureProbes.Catalog.Reader
import FeatureProbes.Json.Reader
import FeatureProbes.Probe.Codec
import FeatureProbes.WebIdl.Codec
import FeatureProbes.WebIdl.Parser.Definition

/-!
# Build documents

A document gives everything that a build needs: definitions, style properties, built-in objects,
the catalog of custom tests, and options.  The catalog is read first, then the definitions; the
tests of interfaces, style properties and built-in objects are made in this order and go to one
table.
-/

namespace FeatureProbes
namespace Build

open Json (Record Value)
open Probe (Table)

/-- Options of a build. -/
structure Options where
  /-- The scopes that definitions may name. -/
  validScopes : NameSet
  /-- The scopes in which built-in objects are tested, if they are valid. -/
  builtinScopes : List String

/-- The scopes that definitions may name unless the options say otherwise. -/
def defaultScopes : List String :=
  ["AnimationWorklet", "AudioWorklet", "LayoutWorklet", "PaintWorklet", "RTCIdentityProvider",
    "ServiceWorker", "SharedWorker", "Window", "Worker", "Worklet"]

/-- The scopes in which built-in objects are tested unless the options say otherwise. -/
def defaultBuiltinScopes : List String := ["Window", "Worker"]

namespace Options

/-- The options where nothing else is said. -/
def standard : Options := ⟨.ofNames defaultScopes, defaultBuiltinScopes⟩

/-- The scopes in which built-in objects are tested. -/
def testedScopes (options : Options) : List String :=
  options.builtinScopes.filter options.validScopes.contains

/-- The options that a value stands for, with the standard scopes for those it leaves out. -/
def ofValue? (value : Value) : Option Options := do
  let record ← Record.ofValue? ["validScopes", "jsExposure"] value
  let valid ← record.optional? "validScopes" Value.strings? defaultScopes
  let builtin ← record.optional? "jsExposure" Value.strings? defaultBuiltinScopes
  return ⟨.ofNames valid, builtin⟩

/-- Options as data. -/
def toValue (options : Options) : Value :=
  .object
    [("validScopes", .ofStrings options.validScopes.keys),
      ("jsExposure", .ofStrings options.builtinScopes)]

end Options

/-- A fragment: the text of definitions, or definitions. -/
inductive Source where
  | text (idl : String)
  | definitions (read : List WebIdl.Definition)

namespace Source

/-- The fragment that a value stands for. -/
def ofValue? (value : Value) : Option Source :=
  match value with
  | .string idl => some (.text idl)
  | _ => .definitions <$> value.list? WebIdl.Definition.ofValue?

/-- The definitions of a fragment. -/
def load (source : Source) (name : String) : Except BuildError (List WebIdl.Definition) :=
  match source with
  | .definitions given => .ok given
  | .text idl =>
      match WebIdl.parse idl.toList with
      | .ok found => .ok found
      | .error (line, problem) => .error (.idlSyntax name line problem)

end Source

/-- Fragments by their names. -/
abbrev Sources := SortedMap Source

/-- The fragments that a value stands for. -/
def Sources.ofValue? (value : Value) : Option Sources :=
  value.map? Source.ofValue?

/-- The definitions of fragments, read in the order of their names. -/
def Sources.load (sources : Sources) : Except BuildError WebIdl.Fragments := do
  let fragments ← sources.entries.mapM fun (name, source) => do
    return (name, ← source.load name)
  return .ofList fragments

/-- What a build needs. -/
structure Document where
  specIdl : Sources
  customIdl : Sources
  specCss : SpecProperties
  customCss : CustomProperties
  builtins : Builtins
  /-- The catalog of custom tests, before it is read. -/
  catalog : Value
  options : Options

namespace Document

/-- The fields of a document. -/
def fieldNames : List String :=
  ["specIdl", "customIdl", "specCss", "customCss", "customJs", "customTests", "options"]

/-- The document that a value stands for.  Every part may be left out. -/
def ofValue? (value : Value) : Option Document := do
  let record ← Record.ofValue? fieldNames value
  let specIdl ← record.optional? "specIdl" Sources.ofValue? .empty
  let customIdl ← record.optional? "customIdl" Sources.ofValue? .empty
  let specCss ← record.optional? "specCss" SpecProperties.ofValue? .empty
  let customCss ← record.optional? "customCss" CustomProperties.ofValue? .empty
  let builtins ← record.optional? "customJs" Builtins.ofValue? .empty
  let catalog ← record.optional? "customTests" some .null
  let options ← record.optional? "options" Options.ofValue? .standard
  return ⟨specIdl, customIdl, specCss, customCss, builtins, catalog, options⟩

/-- The catalog of a document; null stands for the one without tests. -/
def loadCatalog (document : Document) : Except BuildError Catalog :=
  match document.catalog with
  | .null => .ok .empty
  | value => Catalog.ofDocument value

/-- The tests of everything that a document gives. -/
def table (document : Document) : Reporting Table := do
  let catalog ← Reporting.ofExcept document.loadCatalog
  let spec ← Reporting.ofExcept document.specIdl.load
  let custom ← Reporting.ofExcept document.customIdl.load
  let api ← apiTable spec custom document.options.validScopes catalog
  let css ← cssTable document.specCss document.customCss catalog
  let builtins ← builtinTable document.builtins catalog document.options.testedScopes
  return (api.insertTests css.entries).insertTests builtins.entries

/-- The document that is written in a text. -/
def ofText (text : String) : Except BuildError Document :=
  match (Json.read? text).bind ofValue? with
  | some document => .ok document
  | none => .error .invalidDocument

end Document

/-- A table and what was noted on the way to it. -/
structure Output where
  table : Table
  diagnostics : Diagnostics

/-- A table and its diagnostics as data. -/
def Output.toValue (output : Output) : Value :=
  .object
    [("tests", output.table.toValue),
      ("diagnostics", .ofList Diagnostic.toValue output.diagnostics)]

/-- Make a table, from no diagnostics on. -/
def Output.ofReporting (build : Reporting Table) : Except BuildError Output :=
  match build.run.run [] with
  | (.ok table, diagnostics) => .ok ⟨table, diagnostics⟩
  | (.error error, _) => .error error

/-- Build what the text of a document asks for. -/
def ofText (text : String) : Except BuildError Output := do
  Output.ofReporting (← Document.ofText text).table

end Build
end FeatureProbes
