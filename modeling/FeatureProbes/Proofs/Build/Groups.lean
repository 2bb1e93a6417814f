import FeatureProbes.Proofs.Build.Properties
import FeatureProbes.Proofs.Probe.Condition
import FeatureProbes.Proofs.Text.Quoted
import FeatureProbes.Proofs.Text.Segments

/-!
# Groups of values

A group of values of a style property is one test, which holds just if the test of one of its values
holds.  This needs two things: the group must have values, as an empty disjunction is an empty text,
and no value of the property may have the name of the group.  Such a value is tested first, so it
alone is what the path stands for.
-/

namespace FeatureProbes
namespace Probe

section Quoted

variable {mark : Char} {rest : List Char}

/-- Any other character goes on with a string. -/
theorem isFree_inString_cons
    {c : Char}
    (hquote : c ≠ '"')
    (hescape : c ≠ '\\') :
    isFree mark (.inString '"') (c :: rest) = isFree mark (.inString '"') rest := by
  rw [isFree, Place.next, if_neg hquote, if_neg hescape]
  rfl

/-- A backslash and the character behind it do not end a string. -/
theorem isFree_inString_escape
    (c : Char) :
    isFree mark (.inString '"') ('\\' :: c :: rest) = isFree mark (.inString '"') rest := by
  rfl

theorem isFree_escapeChar
    (c : Char) :
    isFree mark (.inString '"') (Text.escapeChar c ++ rest) =
      isFree mark (.inString '"') rest := by
  have hdigit : ∀ n < 16, ∀ rest,
      isFree mark (.inString '"') (Text.hexDigit n :: rest) = isFree mark (.inString '"') rest := by
    intro n hn rest
    have hne : Text.hexDigit n ≠ '"' ∧ Text.hexDigit n ≠ '\\' := by
      revert n
      decide
    exact isFree_inString_cons hne.1 hne.2
  unfold Text.escapeChar
  split_ifs with hquote hescape
  all_goals try exact isFree_inString_escape _
  · simp only [List.cons_append, List.nil_append, isFree_inString_escape]
    rw [isFree_inString_cons (by decide) (by decide), isFree_inString_cons (by decide) (by decide),
      hdigit _ (by omega), hdigit _ (by omega)]
  · exact isFree_inString_cons hquote hescape

theorem isFree_quoted
    (hmark : mark ≠ '"')
    (text : String) :
    isFree mark .outside (Text.quoted text).toList := by
  have hstring : ∀ chars : List Char,
      isFree mark (.inString '"') (chars.flatMap Text.escapeChar ++ ['"']) := by
    intro chars
    induction chars with
    | nil =>
        rfl
    | cons c chars ih =>
        rw [List.flatMap_cons, List.append_assoc, isFree_escapeChar]
        exact ih
  rw [Text.quoted, String.toList_ofList, Text.quote]
  exact isFree_cons_iff.2 ⟨fun _ => hmark.symm, hstring text.toList⟩

end Quoted

end Probe

namespace Build

open Probe (Table TestCode isAtomic isFree isTrue)
open Reporting (Gives)

/-- The probe of a value is a single condition. -/
theorem isAtomic_valueProbe
    (name value : String) :
    isAtomic (valueProbe name value).compile := by
  have hfree : ∀ mark : Char, mark = '|' ∨ mark = '&' →
      isFree mark .outside (valueProbe name value).compile.toList := by
    intro mark hmark
    have hquoted : ∀ text, isFree mark .outside (Text.quoted text).toList :=
      Probe.isFree_quoted (by rcases hmark with rfl | rfl <;> decide)
    have hopen : isFree mark .outside "bcd.testCSSProperty(".toList := by
      rcases hmark with rfl | rfl <;> decide
    have hcomma : isFree mark .outside ", ".toList := by
      rcases hmark with rfl | rfl <;> decide
    have hclose : isFree mark .outside ")".toList := by
      rcases hmark with rfl | rfl <;> decide
    rw [valueProbe, TestCode.compile]
    exact Probe.isFree_toList_append
      (Probe.isFree_toList_append
        (Probe.isFree_toList_append (Probe.isFree_toList_append hopen (hquoted name)) hcomma)
        (hquoted value))
      hclose
  exact Bool.and_eq_true_iff.2 ⟨hfree '|' (Or.inl rfl), hfree '&' (Or.inr rfl)⟩

/-- A group with values holds just if one of them does. -/
theorem isTrue_compile_values
    {values : List String}
    (assignment : String → Bool)
    (name : String)
    (hne : values ≠ []) :
    isTrue assignment (TestCode.compile (.combined (values.map (valueProbe name)) .any)) =
      values.any fun value => assignment (valueProbe name value).compile := by
  have hwellFormed : ∀ item ∈ values.map (valueProbe name), item.WellFormed := by
    intro item hitem
    obtain ⟨value, -, rfl⟩ := List.mem_map.1 hitem
    exact .raw (isAtomic_valueProbe name value)
  have hgrouped : ∀ item ∈ values.map (valueProbe name), item.Grouped := by
    intro item hitem
    obtain ⟨value, -, rfl⟩ := List.mem_map.1 hitem
    exact .raw
  have hcode : (TestCode.combined (values.map (valueProbe name)) .any).WellFormed :=
    .combined (by simpa using hne) hwellFormed
  rw [(hcode.isCondition_and_isTrue (.any hgrouped)).2, TestCode.holds, TestCode.holdAll_eq_map,
    List.map_map, List.any_map]
  rfl

/-- Names of properties have no dots. -/
def PlainProperties
    (spec : SpecProperties)
    (custom : CustomProperties) : Prop :=
  ∀ name, Listed spec name ∨ name ∈ custom.keys → '.' ∉ name.toList

section Groups

variable
  {spec : SpecProperties} {custom : CustomProperties} {catalog : Catalog} {name group : String}
  {property : CustomProperty} {values : List String}

/-- What a path with the name of a group stands for: a value of this name if there is one, else the
group. -/
def groupProbe
    (name : String)
    (property : CustomProperty)
    (group : String)
    (values : List String) :
    TestCode :=
  if group ∈ property.values then valueProbe name group
  else .combined (values.map (valueProbe name)) .any

/-- Among the probes of a property a value comes before a group of its name. -/
theorem find?_customProbes
    (hgroup : property.groups.get? group = some values) :
    (customProbes name property).find? (fun probe => probe.1 = propertyPath name ++ "." ++ group) =
      some (propertyPath name ++ "." ++ group, groupProbe name property group values) := by
  have hsame : ∀ other, propertyPath name ++ "." ++ other = propertyPath name ++ "." ++ group ↔
      other = group := fun other => String.append_right_inj _
  rw [customProbes, List.find?_cons_of_neg (by simpa using Text.ne_append_dot _ _),
    List.find?_append, List.find?_map, List.find?_map, groupProbe]
  simp only [Function.comp_def, hsame]
  by_cases hvalue : group ∈ property.values
  · have hsome : (property.values.find? fun value => value = group).isSome :=
      List.find?_isSome.2 ⟨group, hvalue, decide_eq_true rfl⟩
    obtain ⟨value, hfound⟩ := Option.isSome_iff_exists.1 hsome
    obtain rfl : value = group := by
      simpa using List.find?_some hfound
    rw [hfound, if_pos hvalue]
    rfl
  · have hnone : property.values.find? (fun value => value = group) = none := by
      refine List.find?_eq_none.2 fun value hmem heq => hvalue ?_
      rwa [← of_decide_eq_true heq]
    obtain ⟨⟨other, _⟩, hfound, rfl⟩ := Option.map_eq_some_iff.1 hgroup
    obtain rfl : other = group := by
      simpa using List.find?_some hfound
    rw [hnone, hfound, if_neg hvalue]
    rfl

/-- Where names are plain, a path below a property is in the row of this property alone. -/
theorem IsRowOf.eq_customProbes
    {row : List (String × TestCode)} {other : String} {code : TestCode}
    (h : IsRowOf spec custom other row)
    (hplain : PlainProperties spec custom)
    (hproperty : custom.get? name = some property)
    (hmem : (propertyPath name ++ "." ++ group, code) ∈ row) :
    row = customProbes name property := by
  have hname : '.' ∉ name.toList :=
    hplain name (Or.inr (SortedMap.mem_keys_iff.2 (Option.isSome_of_eq_some hproperty)))
  have hdotted : ∀ {plain : String}, '.' ∉ plain.toList →
      propertyPath name ++ "." ++ group ≠ propertyPath plain := by
    intro plain hdot heq
    rw [propertyPath, propertyPath, String.append_assoc, String.append_assoc,
      String.append_right_inj] at heq
    simp [← heq] at hdot
  have hbelow : ∀ {plain rest : String}, '.' ∉ plain.toList →
      propertyPath name ++ "." ++ group = propertyPath plain ++ "." ++ rest → plain = name := by
    intro plain rest hdot heq
    rw [propertyPath, propertyPath, String.append_assoc, String.append_assoc, String.append_assoc,
      String.append_assoc, String.append_right_inj, ← String.append_assoc,
      ← String.append_assoc] at heq
    exact ((Text.append_dot_inj hname hdot).1 heq).1.symm
  cases h with
  | @custom property' hother =>
      have hdot : '.' ∉ other.toList :=
        hplain other (Or.inr (SortedMap.mem_keys_iff.2 (Option.isSome_of_eq_some hother)))
      have heq : other = name := by
        rcases mem_customProbes_iff.1 hmem with
          ⟨heq, -⟩ | ⟨value, -, heq, -⟩ | ⟨group', values', -, heq, -⟩
        · exact absurd heq (hdotted hdot)
        · exact hbelow hdot heq
        · exact hbelow hdot heq
      subst heq
      cases hother.symm.trans hproperty
      rfl
  | listed hnone hlisted =>
      have heq := congrArg Prod.fst (List.mem_singleton.1 hmem)
      exact absurd heq (hdotted (hplain other (Or.inl hlisted)))

theorem find?_cssProbes_group
    (hplain : PlainProperties spec custom)
    (hproperty : custom.get? name = some property)
    (hgroup : property.groups.get? group = some values) :
    (cssProbes spec custom).find? (fun probe => probe.1 = propertyPath name ++ "." ++ group) =
      some (propertyPath name ++ "." ++ group, groupProbe name property group values) := by
  obtain ⟨code, hfound⟩ :=
    exists_find?_path (mem_paths_cssProbes_iff.2 ⟨_, .group hproperty hgroup⟩)
  change (cssProbes spec custom).find? (fun probe =>
    probe.1 = propertyPath name ++ "." ++ group) = _ at hfound
  -- only the row of the property can answer, whatever rows stand before it
  obtain ⟨rows, hprobes, hrows⟩ := exists_rows_cssProbes spec custom
  have hrow := hfound
  rw [hprobes, List.find?_flatMap] at hrow
  obtain ⟨⟨other, row⟩, hentry, hrow⟩ := List.exists_of_findSome?_eq_some hrow
  have hown := ((hrows _ _).1 hentry).eq_customProbes hplain hproperty
    (List.mem_of_find?_eq_some hrow)
  change row.find? _ = _ at hrow
  rw [hown, find?_customProbes hgroup] at hrow
  rw [hfound, hrow]

/-- The test of a group has the code of the catalog, or that of a value of the same name.  Otherwise
it holds just if one of the values of the group does, if the group has values. -/
theorem cssTable_group
    {before after : Diagnostics} {table : Table}
    (hplain : PlainProperties spec custom)
    (h : Gives (cssTable spec custom catalog) before table after)
    (hproperty : custom.get? name = some property)
    (hgroup : property.groups.get? group = some values) :
    ∃ test own, table.get? ("css.properties." ++ name ++ "." ++ group) = some test ∧
      Reporting.result? (catalog.test ("css.properties." ++ name ++ "." ++ group)) = some own ∧
      test.code = own.test.getD (groupProbe name property group values).compile ∧
      (own.test = none → group ∉ property.values → values ≠ [] → ∀ assignment,
        isTrue assignment test.code =
          values.any fun value => assignment (valueProbe name value).compile) := by
  have htable := isTableOf_cssTable h
  have hfound := find?_cssProbes_group hplain hproperty hgroup
  have hkey : propertyPath name ++ "." ++ group ∈ table.keys :=
    (htable.mem_keys_iff _).2 (List.mem_map_of_mem (List.mem_of_find?_eq_some hfound))
  obtain ⟨test, htest⟩ := Option.isSome_iff_exists.1 (SortedMap.mem_keys_iff.1 hkey)
  obtain ⟨code, own, hfirst, hown, hcode⟩ := htable.exists_code _ test htest
  cases hfirst.symm.trans hfound
  refine ⟨test, own, htest, hown, hcode, ?_⟩
  intro hsilent hvalue hne assignment
  rw [hcode, hsilent, Option.getD_none, groupProbe, if_neg hvalue]
  exact isTrue_compile_values assignment name hne

end Groups

/-- A value alone stands at the path of a group that has its name, though the group has another
value. -/
example :
    (Reporting.result? (cssTable .empty
        (.ofList [("zoom", ⟨["reset"], .ofList [("reset", ["reset", "-webkit-reset"])]⟩)])
        .empty)).bind
      (fun table => (table.get? "css.properties.zoom.reset").map Probe.CompiledTest.code) =
      some "bcd.testCSSProperty(\"zoom\", \"reset\")" := by
  decide +kernel

/-- A group without values has no code. -/
example : TestCode.compile (.combined ([].map (valueProbe "zoom")) .any) = "" := by
  rfl

end Build
end FeatureProbes
