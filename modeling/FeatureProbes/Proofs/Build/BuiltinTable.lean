import FeatureProbes.Proofs.Build.Builtins
import FeatureProbes.Proofs.Build.Probes
import FeatureProbes.Proofs.Text.Segments

/-!
# Tables of built-in objects

The path of a built-in object is that of its visible segments.  If it has arguments, making or
calling it is tested one segment below, under the last visible segment.

Different names can have the same visible segments, and a member may have the name of its owner, so
there can be fewer tests than probes.  The names are gone through in order.  At a path of several
probes the first one gives the code, unless the catalog has code for this path.
-/

namespace FeatureProbes
namespace Build

open Probe (CompiledTest Table TestCode)
open Reporting (Gives)

/-- A built-in object has a probe at a path: at that of its visible segments the probe that looks
for it, and one segment below the probe that makes or calls it. -/
inductive ProbedAt
    (name : String)
    (builtin : Builtin) : String → TestCode → Prop
  | looked :
      ProbedAt name builtin
        ("javascript.builtins." ++ Text.joinSegments (visibleSegments name)) (builtinProbe name)
  | made
      {arguments last : String}
      (harguments : builtin.arguments = some arguments)
      (hlast : (visibleSegments name).getLast? = some last) :
      ProbedAt name builtin
        ("javascript.builtins." ++ Text.joinSegments (visibleSegments name) ++ "." ++ last)
        (constructorProbe name builtin arguments)

/-- The first of some built-in objects with a probe at a path has this probe there. -/
def IsFirstAt
    (builtins : Builtins)
    (path : String)
    (code : TestCode) : Prop :=
  ∃ earlier name builtin later, builtins.entries = earlier ++ (name, builtin) :: later ∧
    ProbedAt name builtin path code ∧
    ∀ entry ∈ earlier, ∀ other, ¬ProbedAt entry.1 entry.2 path other

/-- The probes of one built-in object. -/
def ownProbes
    (entry : String × Builtin) :
    List (String × TestCode) :=
  (builtinPath entry.1, builtinProbe entry.1) :: constructorProbes entry.1 entry.2

section BuiltinTable

variable {name path : String} {builtin : Builtin} {code : TestCode} {builtins : Builtins}

theorem mem_constructorProbes_iff :
    (path, code) ∈ constructorProbes name builtin ↔
      ∃ arguments last, builtin.arguments = some arguments ∧
        (visibleSegments name).getLast? = some last ∧ path = builtinPath name ++ "." ++ last ∧
        code = constructorProbe name builtin arguments := by
  rw [constructorProbes]
  split
  · rename_i arguments last harguments hlast
    simp [harguments, hlast]
  · rename_i hnone
    refine iff_of_false List.not_mem_nil ?_
    rintro ⟨arguments, last, harguments, hlast, -⟩
    exact hnone arguments last harguments hlast

theorem mem_ownProbes_iff :
    (path, code) ∈ ownProbes (name, builtin) ↔ ProbedAt name builtin path code := by
  rw [ownProbes, List.mem_cons, Prod.mk.injEq, mem_constructorProbes_iff]
  constructor
  · rintro (⟨rfl, rfl⟩ | ⟨arguments, last, harguments, hlast, rfl, rfl⟩)
    · exact .looked
    · exact .made harguments hlast
  · rintro (_ | ⟨harguments, hlast⟩)
    · exact Or.inl ⟨rfl, rfl⟩
    · exact Or.inr ⟨_, _, harguments, hlast, rfl, rfl⟩

/-- The probes of one built-in object have different paths. -/
theorem ProbedAt.unique
    {other : TestCode}
    (h : ProbedAt name builtin path code)
    (hother : ProbedAt name builtin path other) :
    code = other := by
  generalize hpath : path = path' at hother
  rcases h with _ | ⟨harguments, hlast⟩ <;> rcases hother with _ | ⟨harguments', hlast'⟩
  · rfl
  · exact absurd hpath (Text.ne_append_dot _ _)
  · exact absurd hpath.symm (Text.ne_append_dot _ _)
  · cases harguments.symm.trans harguments'
    rfl

theorem find?_ownProbes_eq_some_iff :
    (ownProbes (name, builtin)).find? (fun probe => probe.1 = path) = some (path, code) ↔
      ProbedAt name builtin path code := by
  constructor
  · intro h
    exact mem_ownProbes_iff.1 (List.mem_of_find?_eq_some h)
  · intro h
    obtain ⟨other, hother⟩ := exists_find?_path (List.mem_map_of_mem (mem_ownProbes_iff.2 h))
    rw [hother, (mem_ownProbes_iff.1 (List.mem_of_find?_eq_some hother)).unique h]

theorem find?_ownProbes_eq_none_iff :
    (ownProbes (name, builtin)).find? (fun probe => probe.1 = path) = none ↔
      ∀ other, ¬ProbedAt name builtin path other := by
  rw [List.find?_eq_none]
  constructor
  · intro h other hother
    exact h _ (mem_ownProbes_iff.2 hother) (by simp)
  · rintro h ⟨place, other⟩ hmem hplace
    obtain rfl : place = path := by
      simpa using hplace
    exact h other (mem_ownProbes_iff.1 hmem)

theorem find?_builtinProbes_eq_some_iff :
    (builtinProbes builtins).find? (fun probe => probe.1 = path) = some (path, code) ↔
      IsFirstAt builtins path code := by
  have hprobes : builtinProbes builtins = builtins.entries.flatMap ownProbes := rfl
  rw [hprobes, List.find?_flatMap, List.findSome?_eq_some_iff, IsFirstAt]
  constructor
  · rintro ⟨earlier, ⟨name, builtin⟩, later, hentries, hfound, hnone⟩
    refine ⟨earlier, name, builtin, later, hentries, find?_ownProbes_eq_some_iff.1 hfound, ?_⟩
    exact fun entry hentry => find?_ownProbes_eq_none_iff.1 (hnone entry hentry)
  · rintro ⟨earlier, name, builtin, later, hentries, hprobed, hnone⟩
    refine ⟨earlier, (name, builtin), later, hentries, find?_ownProbes_eq_some_iff.2 hprobed, ?_⟩
    exact fun entry hentry => find?_ownProbes_eq_none_iff.2 (hnone entry hentry)

theorem mem_paths_builtinProbes_iff :
    path ∈ (builtinProbes builtins).map Prod.fst ↔
      ∃ entry ∈ builtins.entries, ∃ code, ProbedAt entry.1 entry.2 path code := by
  have hprobes : builtinProbes builtins = builtins.entries.flatMap ownProbes := rfl
  rw [hprobes, List.mem_map]
  constructor
  · rintro ⟨⟨path, code⟩, hmem, rfl⟩
    obtain ⟨entry, hentry, hown⟩ := List.mem_flatMap.1 hmem
    exact ⟨entry, hentry, code, mem_ownProbes_iff.1 hown⟩
  · rintro ⟨entry, hentry, code, hprobed⟩
    exact ⟨(path, code), List.mem_flatMap.2 ⟨entry, hentry, mem_ownProbes_iff.2 hprobed⟩, rfl⟩

/-- Visible segments show in their path, and nothing else does. -/
theorem prototype_not_mem_segments
    {parts : List String}
    (h : ∀ part ∈ parts, part ∈ visibleSegments name) :
    "prototype" ∉ Text.segments (Text.joinSegments parts) := by
  by_cases hnil : parts = []
  · rw [hnil]
    decide
  · rw [Text.segments_joinSegments hnil]
    · intro hmem
      have hvisible := (List.mem_filter.1 (h _ hmem)).2
      simp at hvisible
    · intro part hpart
      exact Text.dot_not_mem_of_mem_segments (List.mem_filter.1 (h part hpart)).1

/-- Prototypes do not show in the paths of probes. -/
theorem ProbedAt.exists_rest
    (h : ProbedAt name builtin path code) :
    ∃ rest, path = "javascript.builtins." ++ rest ∧ "prototype" ∉ Text.segments rest := by
  cases h with
  | looked =>
      exact ⟨_, rfl, prototype_not_mem_segments fun part hpart => hpart⟩
  | @made arguments last harguments hlast =>
      have hmem := List.mem_of_getLast? hlast
      have hne : visibleSegments name ≠ [] := List.ne_nil_of_mem hmem
      have hparts : ∀ part ∈ visibleSegments name ++ [last], part ∈ visibleSegments name := by
        intro part hpart
        rcases List.mem_append.1 hpart with hpart | hpart
        · exact hpart
        · rwa [List.mem_singleton.1 hpart]
      refine ⟨_, ?_, prototype_not_mem_segments hparts⟩
      rw [Text.joinSegments_append_singleton last hne, String.append_assoc, String.append_assoc,
        String.append_assoc]

/-- A build that comes to a table made it from the probes. -/
theorem isTableOf_builtinTable
    {catalog : Catalog} {exposure : List String} {before after : Diagnostics} {table : Table}
    (h : Gives (builtinTable builtins catalog exposure) before table after) :
    IsTableOf catalog exposure (builtinProbes builtins) table := by
  obtain ⟨tests, _, htests, hpure⟩ := Reporting.gives_bind_iff.1 h
  obtain ⟨rfl, -⟩ := Reporting.gives_pure_iff.1 hpure
  exact isTableOf_of_gives htests

/-- A table of built-in objects has tests just at the paths of their probes, in which prototypes do
not show.  The code is that of the catalog or of the first probe, and the scopes are the given
ones. -/
theorem builtinTable_outcome
    {catalog : Catalog} {exposure : List String} {before after : Diagnostics} {table : Table}
    (h : Gives (builtinTable builtins catalog exposure) before table after) :
    (∀ path, path ∈ table.keys ↔
      ∃ entry ∈ builtins.entries, ∃ code, ProbedAt entry.1 entry.2 path code) ∧
    (∀ path ∈ table.keys,
      ∃ rest, path = "javascript.builtins." ++ rest ∧ "prototype" ∉ Text.segments rest) ∧
    ∀ path test, table.get? path = some test →
      (∃ code custom, IsFirstAt builtins path code ∧
        Reporting.result? (catalog.test path) = some custom ∧
        test.code = custom.test.getD code.compile) ∧
      ∀ scope, scope ∈ test.exposure ↔ scope ∈ exposure := by
  have htable := isTableOf_builtinTable h
  have hkeys : ∀ path, path ∈ table.keys ↔
      ∃ entry ∈ builtins.entries, ∃ code, ProbedAt entry.1 entry.2 path code := by
    intro path
    rw [htable.mem_keys_iff, mem_paths_builtinProbes_iff]
  refine ⟨hkeys, ?_, ?_⟩
  · intro path hpath
    obtain ⟨entry, -, code, hprobed⟩ := (hkeys path).1 hpath
    exact hprobed.exists_rest
  · intro path test htest
    obtain ⟨code, custom, hfirst, hcustom, hcode⟩ := htable.exists_code path test htest
    refine ⟨⟨code, custom, find?_builtinProbes_eq_some_iff.1 hfirst, hcustom, hcode⟩, ?_⟩
    exact (htable.inScopes path test htest).mem_iff

end BuiltinTable

/-! ## A bell -/

/-- A bell that is made with a number.  It has a member of its own name, and one name that is found
both on the bell and on its prototype. -/
def bell : Builtins :=
  .ofList
    [("Bell", ⟨some "1", none⟩), ("Bell.Bell", ⟨none, none⟩), ("Bell.prototype.ring", ⟨none, none⟩),
      ("Bell.ring", ⟨none, none⟩)]

/-- A catalog with a test of the bell. -/
def bellCatalog : Catalog where
  root := { Catalog.Node.empty with
    children := [("javascript", { Catalog.Node.empty with
      children := [("builtins", { Catalog.Node.empty with
        children := [("Bell", { Catalog.Node.empty with
          test := some "return 'Bell' in self;" })] })] })] }
  resources := .empty

/-- The bell has the code of the catalog.  Its constructor comes before the member of its name, and
the member of the prototype before that of the bell. -/
theorem builtinTable_bell :
    ∃ table after, Gives (builtinTable bell bellCatalog ["Window"]) [] table after ∧
      (∀ path, path ∈ table.keys ↔
        path = "javascript.builtins.Bell" ∨ path = "javascript.builtins.Bell.Bell" ∨
          path = "javascript.builtins.Bell.ring") ∧
      (∀ test, table.get? "javascript.builtins.Bell" = some test →
        test.code = Script.wrap "return 'Bell' in self;") ∧
      (∀ test, table.get? "javascript.builtins.Bell.Bell" = some test →
        test.code =
          "(function () \x7b\n  if (!(\"Bell\" in self)) \x7b\n    return \x7bresult: false, " ++
            "message: \"Bell is not defined\"\x7d;\n  \x7d\n  return !!new Bell(1);\n\x7d)()") ∧
      ∀ test, table.get? "javascript.builtins.Bell.ring" = some test →
        test.code =
            "\"Bell\" in self && Object.prototype.hasOwnProperty.call(Bell.prototype, \"ring\")" ∧
          ∀ scope, scope ∈ test.exposure ↔ scope ∈ ["Window"] := by
  have hbuilds : (Reporting.result? (builtinTable bell bellCatalog ["Window"])).isSome := by
    decide +kernel
  obtain ⟨table, htable⟩ := Option.isSome_iff_exists.1 hbuilds
  obtain ⟨after, h⟩ := Reporting.exists_gives_of_result? htable
  obtain ⟨hkeys, -, htests⟩ := builtinTable_outcome h
  have hpaths : (builtinProbes bell).map Prod.fst =
      ["javascript.builtins.Bell", "javascript.builtins.Bell.Bell",
        "javascript.builtins.Bell.Bell", "javascript.builtins.Bell.ring",
        "javascript.builtins.Bell.ring"] := by
    decide +kernel
  have hcodes : ∀ (code : TestCode) {path : String} {own : Option String} {test : CompiledTest},
      (builtinProbes bell).find? (fun probe => probe.1 = path) = some (path, code) →
      (Reporting.result? (bellCatalog.test path)).map Catalog.Override.test = some own →
      table.get? path = some test → test.code = own.getD code.compile := by
    intro code path own test hfound hown htest
    obtain ⟨⟨code', custom, hfirst, hcustom, hcode⟩, -⟩ := htests path test htest
    cases (find?_builtinProbes_eq_some_iff.2 hfirst).symm.trans hfound
    rw [hcustom, Option.map_some, Option.some.injEq] at hown
    rw [hcode, hown]
  have hsilent : ∀ path ∈ ["javascript.builtins.Bell.Bell", "javascript.builtins.Bell.ring"],
      (Reporting.result? (bellCatalog.test path)).map Catalog.Override.test = some none := by
    decide +kernel
  refine ⟨table, after, h, ?_, ?_, ?_, ?_⟩
  · intro path
    rw [hkeys, ← mem_paths_builtinProbes_iff, hpaths]
    simp
  · intro test htest
    have hown : (Reporting.result? (bellCatalog.test "javascript.builtins.Bell")).map
        Catalog.Override.test = some (some (Script.wrap "return 'Bell' in self;")) := by
      decide +kernel
    exact hcodes (builtinProbe "Bell") (by rfl) hown htest
  · intro test htest
    rw [hcodes (constructorProbe "Bell" _ "1") (by rfl) (hsilent _ (by simp)) htest,
      Option.getD_none]
    decide +kernel
  · intro test htest
    have hname : "Bell.prototype.ring" = Text.joinSegments (["Bell", "prototype"] ++ ["ring"]) := by
      decide
    have hcode := hcodes (builtinProbe "Bell.prototype.ring") (by rfl) (hsilent _ (by simp)) htest
    rw [Option.getD_none, hname,
      compile_builtinProbe (by decide) (by decide) (by decide) (by decide)] at hcode
    exact ⟨hcode.trans (by decide +kernel), (htests _ test htest).2⟩

end Build
end FeatureProbes
