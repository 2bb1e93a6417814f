import FeatureProbes.Proofs.Build.Probes

/-!
# Tables of style properties

A property comes from the fragments that list it or from the properties that are listed by hand,
which also have values and groups.  What a fragment lists must not be listed by hand: the least such
name is refused before the catalog is asked for anything.

Only the names that fragments list matter, not which fragment lists them, how often, or in which
order.
-/

namespace FeatureProbes
namespace Build

open Catalog (HoldsOfAnswers IsRefusal)
open Probe (Table TestCode)
open Reporting (Fails FailsFor Gives)

/-- A fragment lists a property. -/
def Listed
    (spec : SpecProperties)
    (name : String) : Prop :=
  ∃ fragment ∈ spec.entries, name ∈ fragment.2

/-- The least name that is listed both in a fragment and by hand. -/
structure IsLeastKnown
    (spec : SpecProperties)
    (custom : CustomProperties)
    (name : String) : Prop where
  mem_keys : name ∈ custom.keys
  listed : Listed spec name
  le : ∀ other ∈ custom.keys, Listed spec other → name ≤ other

/-- A style property has a probe at a path: at its own path, or below it for a value or a group of a
property that is listed by hand. -/
inductive StyledAt
    (spec : SpecProperties)
    (custom : CustomProperties) : String → TestCode → Prop
  | listed
      {name : String}
      (hlisted : Listed spec name) :
      StyledAt spec custom ("css.properties." ++ name) (propertyProbe name)
  | custom
      {name : String}
      (hname : name ∈ custom.keys) :
      StyledAt spec custom ("css.properties." ++ name) (propertyProbe name)
  | value
      {name value : String} {property : CustomProperty}
      (hproperty : custom.get? name = some property)
      (hvalue : value ∈ property.values) :
      StyledAt spec custom ("css.properties." ++ name ++ "." ++ value) (valueProbe name value)
  | group
      {name group : String} {property : CustomProperty} {values : List String}
      (hproperty : custom.get? name = some property)
      (hgroup : property.groups.get? group = some values) :
      StyledAt spec custom ("css.properties." ++ name ++ "." ++ group)
        (.combined (values.map (valueProbe name)) .any)

/-- The probes of a name: those of the property that is listed by hand, or else the one of a name
that fragments list. -/
inductive IsRowOf
    (spec : SpecProperties)
    (custom : CustomProperties)
    (name : String) : List (String × TestCode) → Prop
  | custom
      {property : CustomProperty}
      (hproperty : custom.get? name = some property) :
      IsRowOf spec custom name (customProbes name property)
  | listed
      (hnone : custom.get? name = none)
      (hlisted : Listed spec name) :
      IsRowOf spec custom name [(propertyPath name, propertyProbe name)]

section Properties

variable
  {spec : SpecProperties} {custom : CustomProperties} {catalog : Catalog} {name path : String}
  {code : TestCode}

theorem mem_specNames_iff :
    name ∈ (specNames spec).keys ↔ Listed spec name := by
  rw [specNames, NameSet.mem_keys_ofNames_iff, List.mem_flatMap, Listed]

/-! ## Names that are listed twice -/

theorem find?_known_eq_some_iff :
    custom.keys.find? (specNames spec).contains = some name ↔ IsLeastKnown spec custom name := by
  simp only [SortedMap.find?_keys_eq_some_iff, SortedMap.contains_iff, mem_specNames_iff]
  exact ⟨fun ⟨hmem, hlisted, hle⟩ => ⟨hmem, hlisted, hle⟩,
    fun ⟨hmem, hlisted, hle⟩ => ⟨hmem, hlisted, hle⟩⟩

theorem exists_isLeastKnown
    (hname : name ∈ custom.keys)
    (hlisted : Listed spec name) :
    ∃ least, IsLeastKnown spec custom least := by
  have hsome : (custom.keys.find? (specNames spec).contains).isSome :=
    List.find?_isSome.2 ⟨name, hname, SortedMap.contains_iff.2 (mem_specNames_iff.2 hlisted)⟩
  obtain ⟨least, hleast⟩ := Option.isSome_iff_exists.1 hsome
  exact ⟨least, find?_known_eq_some_iff.1 hleast⟩

/-- A name that is listed twice is refused, whatever the catalog is. -/
theorem IsLeastKnown.cssTable_eq
    (h : IsLeastKnown spec custom name)
    (catalog : Catalog) :
    cssTable spec custom catalog = throw (.cssPropertyAlreadyKnown name) := by
  rw [cssTable, find?_known_eq_some_iff.2 h]

theorem cssTable_eq_of_unknown
    (h : ∀ name ∈ custom.keys, ¬Listed spec name) :
    cssTable spec custom catalog =
      (do
        let tests ← (cssProbes spec custom).mapM fun (path, code) =>
          testAt catalog ["Window"] path code
        return Table.ofTests tests) := by
  have hnone : custom.keys.find? (specNames spec).contains = none := by
    refine List.find?_eq_none.2 fun name hname hknown => h name hname ?_
    exact mem_specNames_iff.1 (SortedMap.contains_iff.1 hknown)
  rw [cssTable, hnone]

/-- Making the tests cannot fail for a name that is listed twice. -/
theorem not_fails_of_unknown
    {before after : Diagnostics}
    (h : ∀ name ∈ custom.keys, ¬Listed spec name) :
    ¬Fails (cssTable spec custom catalog) before (.cssPropertyAlreadyKnown name) after := by
  have hanswers : HoldsOfAnswers (fun _ => FailsFor IsRefusal) catalog :=
    Catalog.holdsOfAnswers_failsFor fun _ herror => herror
  have hrefuses : FailsFor IsRefusal (cssTable spec custom catalog) := by
    rw [cssTable_eq_of_unknown h]
    exact hanswers.bind (hanswers.mapM fun item _ => holdsOf_testAt hanswers _ item.1 item.2)
      fun _ => hanswers.pure _
  intro hfails
  cases hrefuses _ _ _ hfails

/-- Names that are listed twice are the only reason to refuse a name. -/
theorem fails_alreadyKnown_iff
    {before after : Diagnostics} :
    Fails (cssTable spec custom catalog) before (.cssPropertyAlreadyKnown name) after ↔
      IsLeastKnown spec custom name ∧ before = after := by
  by_cases hknown : ∃ name ∈ custom.keys, Listed spec name
  · obtain ⟨other, hother, hlisted⟩ := hknown
    obtain ⟨least, hleast⟩ := exists_isLeastKnown hother hlisted
    rw [hleast.cssTable_eq, Reporting.fails_throw_iff, ← find?_known_eq_some_iff,
      find?_known_eq_some_iff.2 hleast]
    simp
  · have hunknown : ∀ name ∈ custom.keys, ¬Listed spec name :=
      fun name hname hlisted => hknown ⟨name, hname, hlisted⟩
    refine iff_of_false (not_fails_of_unknown hunknown) ?_
    rintro ⟨hleast, -⟩
    exact hunknown _ hleast.mem_keys hleast.listed

/-! ## Probes -/

theorem mem_customProbes_iff
    {property : CustomProperty} :
    (path, code) ∈ customProbes name property ↔
      (path = propertyPath name ∧ code = propertyProbe name) ∨
      (∃ value ∈ property.values, path = propertyPath name ++ "." ++ value ∧
        code = valueProbe name value) ∨
      ∃ group values, property.groups.get? group = some values ∧
        path = propertyPath name ++ "." ++ group ∧
        code = .combined (values.map (valueProbe name)) .any := by
  simp only [customProbes, List.mem_cons, List.mem_append, List.mem_map, Prod.mk.injEq,
    Prod.exists, SortedMap.get?_eq_some_iff]
  grind

/-- The probes are the rows of all names in order. -/
theorem exists_rows_cssProbes
    (spec : SpecProperties)
    (custom : CustomProperties) :
    ∃ rows : SortedMap (List (String × TestCode)),
      cssProbes spec custom = rows.entries.flatMap Prod.snd ∧
      ∀ name row, (name, row) ∈ rows.entries ↔ IsRowOf spec custom name row := by
  refine ⟨_, rfl, fun name row => ?_⟩
  have hlisted :
      (SortedMap.ofList ((specNames spec).keys.map fun name =>
          (name, [(propertyPath name, propertyProbe name)]))).get? name =
        ((specNames spec).get? name).map fun _ => [(propertyPath name, propertyProbe name)] := by
    rw [SortedMap.keys, List.map_map]
    exact (SortedMap.get?_insertAll_map_entries
      (fun name _ => [(propertyPath name, propertyProbe name)]) _ _ _).trans Option.or_none
  rw [← SortedMap.get?_eq_some_iff, SortedMap.get?_insertAll_map_entries customProbes, hlisted]
  constructor
  · intro hrow
    cases hproperty : custom.get? name with
    | some property =>
        rw [hproperty, Option.map_some, Option.some_or, Option.some.injEq] at hrow
        rw [← hrow]
        exact .custom hproperty
    | none =>
        rw [hproperty, Option.map_none, Option.none_or, Option.map_eq_some_iff] at hrow
        obtain ⟨_, hfound, rfl⟩ := hrow
        refine .listed hproperty (mem_specNames_iff.1 (SortedMap.mem_keys_iff.2 ?_))
        exact Option.isSome_of_eq_some hfound
  · intro hrow
    cases hrow with
    | custom hproperty =>
        rw [hproperty]
        rfl
    | listed hnone hlisted =>
        obtain ⟨_, hfound⟩ := Option.isSome_iff_exists.1
          (SortedMap.mem_keys_iff.1 (mem_specNames_iff.2 hlisted))
        rw [hnone, hfound]
        rfl

theorem mem_cssProbes_iff :
    (path, code) ∈ cssProbes spec custom ↔ StyledAt spec custom path code := by
  obtain ⟨rows, hprobes, hrows⟩ := exists_rows_cssProbes spec custom
  rw [hprobes, List.mem_flatMap]
  constructor
  · rintro ⟨⟨name, row⟩, hentry, hprobe⟩
    cases (hrows _ _).1 hentry with
    | custom hproperty =>
        rcases mem_customProbes_iff.1 hprobe with
          ⟨rfl, rfl⟩ | ⟨value, hvalue, rfl, rfl⟩ | ⟨group, values, hgroup, rfl, rfl⟩
        · exact .custom (SortedMap.mem_keys_iff.2 (Option.isSome_of_eq_some hproperty))
        · exact .value hproperty hvalue
        · exact .group hproperty hgroup
    | listed _ hlisted =>
        cases List.mem_singleton.1 hprobe
        exact .listed hlisted
  · have hcustom : ∀ {name property}, custom.get? name = some property →
        (path, code) ∈ customProbes name property →
        ∃ entry ∈ rows.entries, (path, code) ∈ entry.2 :=
      fun hproperty hprobe => ⟨(_, _), (hrows _ _).2 (.custom hproperty), hprobe⟩
    intro h
    cases h with
    | @listed name hlisted =>
        cases hproperty : custom.get? name with
        | some property =>
            -- the probe of a name that is also listed by hand is the first one of its property
            exact hcustom hproperty (mem_customProbes_iff.2 (Or.inl ⟨rfl, rfl⟩))
        | none =>
            exact ⟨(name, _), (hrows _ _).2 (.listed hproperty hlisted), List.mem_singleton_self _⟩
    | @custom name hname =>
        obtain ⟨property, hproperty⟩ := Option.isSome_iff_exists.1 (SortedMap.mem_keys_iff.1 hname)
        exact hcustom hproperty (mem_customProbes_iff.2 (Or.inl ⟨rfl, rfl⟩))
    | @value name value property hproperty hvalue =>
        exact hcustom hproperty (mem_customProbes_iff.2 (Or.inr (Or.inl ⟨value, hvalue, rfl, rfl⟩)))
    | @group name group property values hproperty hgroup =>
        exact hcustom hproperty
          (mem_customProbes_iff.2 (Or.inr (Or.inr ⟨group, values, hgroup, rfl, rfl⟩)))

theorem mem_paths_cssProbes_iff :
    path ∈ (cssProbes spec custom).map Prod.fst ↔ ∃ code, StyledAt spec custom path code := by
  rw [List.mem_map]
  constructor
  · rintro ⟨⟨path, code⟩, hprobe, rfl⟩
    exact ⟨code, mem_cssProbes_iff.1 hprobe⟩
  · rintro ⟨code, hstyled⟩
    exact ⟨(path, code), mem_cssProbes_iff.2 hstyled, rfl⟩

/-! ## Tables -/

/-- A build that comes to a table made it from the probes. -/
theorem isTableOf_cssTable
    {before after : Diagnostics} {table : Table}
    (h : Gives (cssTable spec custom catalog) before table after) :
    IsTableOf catalog ["Window"] (cssProbes spec custom) table := by
  rw [cssTable] at h
  split at h
  · exact absurd h Reporting.not_gives_throw
  · obtain ⟨tests, _, htests, hpure⟩ := Reporting.gives_bind_iff.1 h
    obtain ⟨rfl, -⟩ := Reporting.gives_pure_iff.1 hpure
    exact isTableOf_of_gives htests

/-- Only the names that fragments list count. -/
theorem specNames_eq
    {spec' : SpecProperties}
    (h : ∀ name, Listed spec' name ↔ Listed spec name) :
    specNames spec' = specNames spec := by
  refine NameSet.ext_keys fun name => ?_
  rw [mem_specNames_iff, mem_specNames_iff, h]

theorem cssTable_congr
    {spec' : SpecProperties}
    (h : ∀ name, Listed spec' name ↔ Listed spec name)
    (custom : CustomProperties)
    (catalog : Catalog) :
    cssTable spec' custom catalog = cssTable spec custom catalog := by
  rw [cssTable, cssTable, cssProbes, cssProbes, specNames_eq h]

/-- A build of style properties refuses a name just if it is listed both in a fragment and by hand:
then it is the least such name, whatever the catalog is.  Otherwise there are tests at the paths of
the properties, their values and their groups, each of them once and for the window alone.  All this
depends only on which names the fragments list. -/
theorem cssTable_outcome
    (spec : SpecProperties)
    (custom : CustomProperties)
    (catalog : Catalog) :
    (∀ before, (∃ name after,
        Fails (cssTable spec custom catalog) before (.cssPropertyAlreadyKnown name) after) ↔
      ∃ name ∈ custom.keys, Listed spec name) ∧
    (∀ before name after,
      Fails (cssTable spec custom catalog) before (.cssPropertyAlreadyKnown name) after →
        IsLeastKnown spec custom name ∧
        ∀ catalog, cssTable spec custom catalog = throw (.cssPropertyAlreadyKnown name)) ∧
    (∀ before table after, Gives (cssTable spec custom catalog) before table after →
      (∀ path, path ∈ table.keys ↔ ∃ code, StyledAt spec custom path code) ∧
      (∀ path test, table.get? path = some test → test.exposure = ["Window"]) ∧
      ∀ name, Listed spec name → table.keys.count ("css.properties." ++ name) = 1) ∧
    ∀ spec', (∀ name, Listed spec' name ↔ Listed spec name) →
      cssTable spec' custom catalog = cssTable spec custom catalog := by
  refine ⟨?_, ?_, ?_, fun spec' hspec => cssTable_congr hspec custom catalog⟩
  · intro before
    simp only [fails_alreadyKnown_iff]
    constructor
    · rintro ⟨name, -, hleast, -⟩
      exact ⟨name, hleast.mem_keys, hleast.listed⟩
    · rintro ⟨name, hname, hlisted⟩
      obtain ⟨least, hleast⟩ := exists_isLeastKnown hname hlisted
      exact ⟨least, before, hleast, rfl⟩
  · intro before name after hfails
    obtain ⟨hleast, -⟩ := fails_alreadyKnown_iff.1 hfails
    exact ⟨hleast, hleast.cssTable_eq⟩
  · intro before table after hgives
    have htable := isTableOf_cssTable hgives
    have hkeys : ∀ path, path ∈ table.keys ↔ ∃ code, StyledAt spec custom path code := by
      intro path
      rw [htable.mem_keys_iff, mem_paths_cssProbes_iff]
    refine ⟨hkeys, fun path test htest => (htable.inScopes path test htest).eq_singleton, ?_⟩
    intro name hlisted
    have hnodup : table.keys.Nodup := table.keys_ascending.imp String.ne_of_lt
    exact List.count_eq_one_of_mem hnodup ((hkeys _).2 ⟨_, .listed hlisted⟩)

end Properties

/-! ## A swatch -/

/-- Fragments of which two list the same property. -/
def swatch : SpecProperties :=
  .ofList [("css-color", ["color", "opacity"]), ("css-color-adjust", ["color"])]

/-- A property with a value and a group. -/
def swatchZoom : CustomProperties :=
  .ofList [("zoom", ⟨["reset"], .ofList [("fill", ["stretch", "-webkit-fill-available"])]⟩)]

/-- The same names in one fragment. -/
def swatchSheet : SpecProperties :=
  .ofList [("css", ["opacity", "color"])]

theorem listed_swatchSheet_iff
    (name : String) :
    Listed swatchSheet name ↔ Listed swatch name := by
  have hsheet : (specNames swatchSheet).keys = (specNames swatch).keys := by
    decide +kernel
  rw [← mem_specNames_iff, hsheet, mem_specNames_iff]

/-- Colors are tested once although two fragments list them, and in one fragment they are tested in
the same way.  They cannot be listed by hand. -/
theorem cssTable_swatch :
    (∃ table after,
      Gives (cssTable swatch swatchZoom .empty) [] table after ∧
      Gives (cssTable swatchSheet swatchZoom .empty) [] table after ∧
      (∀ path, path ∈ table.keys ↔
        path = "css.properties.color" ∨ path = "css.properties.opacity" ∨
          path = "css.properties.zoom" ∨ path = "css.properties.zoom.reset" ∨
          path = "css.properties.zoom.fill") ∧
      table.keys.count "css.properties.color" = 1) ∧
    ∃ name after,
      Fails (cssTable swatch (.ofList [("color", ⟨[], .empty⟩)]) .empty) []
        (.cssPropertyAlreadyKnown name) after := by
  obtain ⟨-, -, hgives, hcongr⟩ := cssTable_outcome swatch swatchZoom .empty
  obtain ⟨hfails, -⟩ := cssTable_outcome swatch (.ofList [("color", ⟨[], .empty⟩)]) .empty
  have hbuilds : (Reporting.result? (cssTable swatch swatchZoom .empty)).isSome := by
    decide +kernel
  obtain ⟨table, htable⟩ := Option.isSome_iff_exists.1 hbuilds
  obtain ⟨after, h⟩ := Reporting.exists_gives_of_result? htable
  obtain ⟨hkeys, -, hcount⟩ := hgives [] table after h
  have hcolor : Listed swatch "color" := ⟨("css-color-adjust", ["color"]), by decide, by decide⟩
  have hpaths : (cssProbes swatch swatchZoom).map Prod.fst =
      ["css.properties.color", "css.properties.opacity", "css.properties.zoom",
        "css.properties.zoom.reset", "css.properties.zoom.fill"] := by
    decide +kernel
  refine ⟨⟨table, after, h, ?_, ?_, hcount "color" hcolor⟩, ?_⟩
  · rw [hcongr swatchSheet listed_swatchSheet_iff]
    exact h
  · intro path
    rw [hkeys, ← mem_paths_cssProbes_iff, hpaths]
    simp
  · exact (hfails []).2 ⟨"color", by decide, hcolor⟩

end Build
end FeatureProbes
