import FeatureProbes.Probe.Code
import FeatureProbes.Proofs.Text.Affix
import FeatureProbes.Proofs.Text.Segments

/-!
# Looks at members

The property of a look is known from how its name begins.  A plain name is that of the property, and
a well-known symbol is looked up before the property that it is the key of.

In front of the look stands the check of its object.  An object with a name of one segment is a
property of the global object, and for its prototype the same check is made.
-/

namespace FeatureProbes
namespace Probe

/-- A name is no path and does not mark a symbol. -/
structure IsPlainName (name : String) : Prop where
  dot : '.' ∉ name.toList
  sign : '@' ∉ name.toList

theorem ownerGuard_of_dotFree
    {owner : String}
    (h : '.' ∉ owner.toList) :
    ownerGuard owner = has owner "self" := by
  rw [ownerGuard, Text.segments_of_not_mem h]
  rfl

namespace MemberRef

/-! ## Objects with names of one segment -/

section Owners

variable {object : String}

/-- A condition on an object stands behind the check of the object. -/
theorem guarded_of_dotFree
    (property condition : String)
    (h : '.' ∉ object.toList)
    (hself : object ≠ "self") :
    (of object property).guarded condition = allOf [has object "self", condition] := by
  have hending : Text.dropEnd? ".prototype" object = none := by
    refine Option.eq_none_iff_forall_ne_some.2 fun front hfront => h ?_
    rw [Text.dropEnd?_eq_some_iff.1 hfront]
    simp
  have hguarded : (of object property).guardedOwner = object := by
    rw [guardedOwner, of, hending, Option.getD_none]
  rw [guarded, hguarded, ownerGuard_of_dotFree h]
  exact if_neg hself

/-- A condition on the prototype of an object stands behind the check of the object. -/
theorem guarded_prototype
    (property condition : String)
    (h : '.' ∉ object.toList) :
    (of (object ++ ".prototype") property).guarded condition =
      allOf [has object "self", condition] := by
  have hself : object ++ ".prototype" ≠ "self" := by
    intro heq
    have hdot : '.' ∈ (object ++ ".prototype").toList := by
      simp
    rw [heq] at hdot
    exact absurd hdot (by decide)
  have hguarded : (of (object ++ ".prototype") property).guardedOwner = object := by
    rw [guardedOwner, of, Text.dropEnd?_eq_some_iff.2 rfl, Option.getD_some]
  rw [guarded, hguarded, ownerGuard_of_dotFree h]
  exact if_neg hself

end Owners

/-! ## Names of properties -/

/-- A property with a plain name is looked at as it is. -/
theorem code_of_isPlainName
    {name : String}
    (owner : String)
    (h : IsPlainName name) :
    (of owner name).code = (of owner name).guarded (has name owner) := by
  have hconstructor : Text.dropStart? "constructor." name = none :=
    Text.dropStart?_eq_none '.' (by decide) h.dot
  have hsymbol : (of owner name).symbol? = none := by
    have hdot : Text.dropStart? "Symbol." name = none :=
      Text.dropStart?_eq_none '.' (by decide) h.dot
    have hsign : Text.dropStart? "@@" name = none :=
      Text.dropStart?_eq_none '@' (by decide) h.sign
    simp [symbol?, of, hdot, hsign]
  have hproperty : (of owner name).property = name := rfl
  simp only [code, hproperty, hconstructor, hsymbol]
  rfl

/-- A well-known symbol is looked up before the property. -/
theorem code_of_symbol
    (owner symbol : String) :
    (of owner ("Symbol." ++ symbol)).code =
      (of owner ("Symbol." ++ symbol)).symbolCode symbol := by
  have hconstructor : Text.dropStart? "constructor." ("Symbol." ++ symbol) = none :=
    Text.dropStart?_append_eq_none rfl rfl (by decide)
  have hsymbol : Text.dropStart? "Symbol." ("Symbol." ++ symbol) = some symbol :=
    Text.dropStart?_eq_some_iff.2 rfl
  simp only [code, symbol?, of, hconstructor, hsymbol]

/-- What is named as a constructor is called. -/
theorem code_of_constructor
    (owner name : String) :
    (of owner ("constructor." ++ name)).code = "bcd.testConstructor(" ++ inQuotes name ++ ")" := by
  have hconstructor : Text.dropStart? "constructor." ("constructor." ++ name) = some name :=
    Text.dropStart?_eq_some_iff.2 rfl
  simp only [code, of, hconstructor]

end MemberRef
end Probe
end FeatureProbes
