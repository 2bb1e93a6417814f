import FeatureProbes.Catalog.Import
import FeatureProbes.Proofs.Catalog.Splicing
import FeatureProbes.Proofs.Script.Occurrences

/-!
# Imported variables stay apart

The setup code that an import token stands for gets its instance in the variable of the token.  The
variables `instance` and `promise` take that name, and a variable that already has it keeps it, so
these fall together.  Any two others stay apart, and so does any other one from these.
-/

namespace FeatureProbes
namespace Catalog

open Script

section Variables

variable {c : Char}

/-- The variable of a token begins as a name of a script does. -/
theorem isNameStart_of_isVariableStart
    (h : isVariableStart c = true) :
    isNameStart c = true := by
  simp only [isVariableStart, Bool.or_eq_true, beq_iff_eq] at h
  rcases h with (halpha | rfl) | rfl
  · have hlt : c.toNat < 128 :=
      Text.toNat_lt_of_isAlphanum (by simp [Char.isAlphanum, halpha])
    simp [isNameStart, hlt, halpha]
  all_goals decide

/-- It goes on as a name does, too. -/
theorem isNamePart_of_isVariablePart
    (h : isVariablePart c = true) :
    isNamePart c = true := by
  simp only [isVariablePart, Bool.or_eq_true, beq_iff_eq] at h
  rcases h with (halphanum | rfl) | rfl
  · simp [isNamePart, Text.toNat_lt_of_isAlphanum halphanum, halphanum]
  all_goals decide

end Variables

/-- The variables of setup code stay apart when its instance gets the variable of a token, unless
both are among `instance`, `promise` and that variable. -/
theorem renamesApart_of_parse
    {token : ImportToken} {code : String} {tree : Tree}
    (hvalid : token.IsValid)
    (hparse : parse code.toList = .ok tree) :
    RenamesApart instanceVariables (String.ofList token.variableName)
      (tree.idents.map Ident.name) code.toList
      (renameVariables instanceVariables (String.ofList token.variableName) code).toList := by
  have hrenames :=
    renamesTo_renameVariables instanceVariables (String.ofList token.variableName) hparse
  refine hrenames.apart ?_ ?_
  · obtain ⟨c, hc, hstart⟩ := hvalid.variableStart
    rw [String.toList_ofList]
    exact ⟨c, hc, isNameStart_of_isVariableStart hstart⟩
  · rw [String.toList_ofList]
    exact fun c hc => isNamePart_of_isVariablePart (hvalid.variablePart c hc)

theorem exists_parse_of_names
    {text : List Char} {names : List String}
    (h : (parse text).toOption.map (fun tree => tree.idents.map Ident.name) = some names) :
    ∃ tree, parse text = .ok tree ∧ tree.idents.map Ident.name = names := by
  cases hparse : parse text with
  | error fault =>
      rw [hparse] at h
      cases h
  | ok tree =>
      rw [hparse] at h
      exact ⟨tree, rfl, Option.some.inj h⟩

/-- Setup code that takes its instance out of an object apart. -/
theorem renamesApart_destructured :
    ∃ tree, (⟨"api.Mill".toList, "v".toList⟩ : ImportToken).IsValid ∧
      parse "var {instance} = m;".toList = .ok tree ∧
      RenamesApart instanceVariables "v" ["instance", "m"]
        "var {instance} = m;".toList
        "var {instance: v} = m;".toList := by
  have hvalid : (⟨"api.Mill".toList, "v".toList⟩ : ImportToken).IsValid := by
    refine ⟨by simp, List.all_eq_true.1 ?_, ⟨'v', rfl, by decide⟩, List.all_eq_true.1 ?_⟩ <;> decide
  obtain ⟨tree, hparse, hnames⟩ :=
    exists_parse_of_names (by decide +kernel :
      (parse "var {instance} = m;".toList).toOption.map
        (fun tree => tree.idents.map Ident.name) = some ["instance", "m"])
  have hrenamed : renameVariables instanceVariables "v" "var {instance} = m;" =
      "var {instance: v} = m;" := by
    decide +kernel
  have hapart := renamesApart_of_parse hvalid hparse
  rw [hnames] at hapart
  refine ⟨tree, hvalid, hparse, ?_⟩
  rw [← hrenamed]
  exact hapart

/-- A variable that already has the name falls together with `instance`. -/
theorem names_eq_of_instance_renamed : ∃ before after,
    parse "var v = 1, instance = 2;".toList = .ok before ∧
    parse (renameVariables instanceVariables "v" "var v = 1, instance = 2;").toList = .ok after ∧
    before.idents.map Ident.name = ["v", "instance"] ∧
    after.idents.map Ident.name = ["v", "v"] := by
  have hrenamed : renameVariables instanceVariables "v" "var v = 1, instance = 2;" =
      "var v = 1, v = 2;" := by
    decide +kernel
  obtain ⟨before, hbefore, hnames⟩ :=
    exists_parse_of_names (by decide +kernel :
      (parse "var v = 1, instance = 2;".toList).toOption.map
        (fun tree => tree.idents.map Ident.name) = some ["v", "instance"])
  obtain ⟨after, hafter, hnames'⟩ :=
    exists_parse_of_names (by decide +kernel :
      (parse "var v = 1, v = 2;".toList).toOption.map
        (fun tree => tree.idents.map Ident.name) = some ["v", "v"])
  exact ⟨before, after, hbefore, by rw [hrenamed]; exact hafter, hnames, hnames'⟩

end Catalog
end FeatureProbes
