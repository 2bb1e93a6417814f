import FeatureProbes.Build.Builtins
import FeatureProbes.Proofs.Probe.Members
import Mathlib.Data.List.Basic

/-!
# Members of built-in objects

The dotted name of a member ends with the name of the member, and the segments before it name the
object that the member is looked for on.  A member of a prototype is found in the same way, unless
the name goes on below that member: what follows the first prototype is taken for one name, so the
look is at the last segment alone just if no prototype stands before the last two segments.
-/

namespace FeatureProbes
namespace Build

open Probe (MemberRef)

/-- A member with some name on the object that some segments name. -/
def memberOf
    (owner : List String)
    (name : String) :
    MemberRef :=
  match Text.dropStart? "@@" name with
  | some symbol => .of (Text.joinSegments owner) ("Symbol." ++ symbol)
  | none => .own (Text.joinSegments owner) name

@[simp] theorem owner_memberOf
    (owner : List String)
    (name : String) :
    (memberOf owner name).owner = Text.joinSegments owner := by
  rw [memberOf]
  split <;> rfl

/-- A well-known symbol is looked up as such, any other name as a property of the object itself. -/
theorem code_memberOf
    {owner : List String} {name : String}
    (hdot : '.' ∉ name.toList) :
    (memberOf owner name).code =
      match Text.dropStart? "@@" name with
      | some symbol => (memberOf owner name).symbolCode symbol
      | none => (memberOf owner name).guarded (memberOf owner name).ownCode := by
  rw [memberOf]
  cases hsign : Text.dropStart? "@@" name with
  | some symbol =>
      exact MemberRef.code_of_symbol _ symbol
  | none =>
      have hconstructor : Text.dropStart? "constructor." name = none :=
        Text.dropStart?_eq_none '.' (by decide) hdot
      have hsymbol : Text.dropStart? "Symbol." name = none :=
        Text.dropStart?_eq_none '.' (by decide) hdot
      simp only [MemberRef.code, MemberRef.symbol?, MemberRef.own, hconstructor, hsymbol, hsign]
      rfl

/-! ## Where the name of the member begins -/

section memberIndex

variable {before after init : List String} {last : String}

theorem memberIndex_of_prototype
    (h : "prototype" ∉ before) :
    memberIndex (before ++ "prototype" :: after) = before.length + 1 := by
  have hfound : (before ++ "prototype" :: after).findIdx? (· = "prototype") =
      some before.length := by
    rw [List.findIdx?_append, List.findIdx?_eq_none_iff.2]
    · simp [List.findIdx?_cons]
    · intro segment hsegment
      exact decide_eq_false fun heq => h (heq ▸ hsegment)
  rw [memberIndex, hfound]

/-- A prototype directly before the last segment belongs to the object like any other segment. -/
theorem memberIndex_of_not_mem
    (hlast : last ≠ "prototype")
    (h : "prototype" ∉ init.dropLast) :
    memberIndex (init ++ [last]) = init.length := by
  by_cases hmem : "prototype" ∈ init
  · obtain ⟨before, after, rfl⟩ := List.append_of_mem hmem
    rcases List.eq_nil_or_concat after with rfl | ⟨more, segment, rfl⟩
    · rw [List.dropLast_append_cons, List.dropLast_singleton, List.append_nil] at h
      rw [List.append_assoc, List.cons_append, memberIndex_of_prototype h]
      simp
    · refine absurd ?_ h
      rw [List.concat_eq_append, List.dropLast_append_cons, ← List.cons_append,
        List.dropLast_concat]
      simp
  · have hnone : (init ++ [last]).findIdx? (· = "prototype") = none := by
      refine List.findIdx?_eq_none_iff.2 fun segment hsegment => decide_eq_false ?_
      rintro rfl
      rcases List.mem_append.1 hsegment with hsegment | hsegment
      · exact hmem hsegment
      · exact hlast (List.mem_singleton.1 hsegment).symm
    rw [memberIndex, hnone, List.length_append]
    rfl

end memberIndex

/-! ## Members by their names -/

section builtinMember

variable {init : List String} {last : String}

theorem builtinMember?_eq
    {parts : List String}
    (h : 2 ≤ parts.length) :
    builtinMember? parts =
      some (memberOf (parts.take (memberIndex parts))
        (Text.joinSegments (parts.drop (memberIndex parts)))) := by
  rw [builtinMember?, if_neg (Nat.not_lt.2 h), memberOf]
  dsimp only
  cases Text.dropStart? "@@" (Text.joinSegments (parts.drop (memberIndex parts))) <;> rfl

theorem two_le_length
    (last : String)
    (hinit : init ≠ []) :
    2 ≤ (init ++ [last]).length := by
  have hpositive := List.length_pos_iff.2 hinit
  rw [List.length_append, List.length_singleton]
  omega

theorem builtinMember?_of_not_mem
    (hinit : init ≠ [])
    (hlast : last ≠ "prototype")
    (h : "prototype" ∉ init.dropLast) :
    builtinMember? (init ++ [last]) = some (memberOf init last) := by
  have hname : Text.joinSegments [last] = last := by
    simp [Text.joinSegments]
  rw [builtinMember?_eq (two_le_length last hinit), memberIndex_of_not_mem hlast h, List.take_left,
    List.drop_left, hname]

/-- The look is at the last segment on the object of the other segments just if no prototype stands
before the last two segments. -/
theorem builtinMember?_eq_memberOf_iff
    (hdots : ∀ segment ∈ init, '.' ∉ segment.toList)
    (hinit : init ≠ [])
    (hlast : last ≠ "prototype") :
    builtinMember? (init ++ [last]) = some (memberOf init last) ↔
      "prototype" ∉ init.dropLast := by
  refine ⟨fun h hmem => ?_, builtinMember?_of_not_mem hinit hlast⟩
  obtain ⟨before, after, hsplit, hbefore⟩ := List.eq_append_cons_of_mem hmem
  have hwhole : init = (before ++ ["prototype"]) ++ (after ++ [init.getLast hinit]) := by
    rw [List.append_assoc, List.singleton_append, ← List.cons_append, ← List.append_assoc, ← hsplit,
      List.dropLast_concat_getLast]
  have hindex : memberIndex (init ++ [last]) = (before ++ ["prototype"]).length := by
    rw [hwhole, List.append_assoc, List.append_assoc, List.singleton_append,
      memberIndex_of_prototype hbefore, List.length_append]
    rfl
  -- the object ends with the prototype, so it is not the object of all segments but the last
  have hsame : Text.joinSegments (before ++ ["prototype"]) = Text.joinSegments init := by
    rw [builtinMember?_eq (two_le_length last hinit), Option.some.injEq] at h
    have howner := congrArg MemberRef.owner h
    rwa [owner_memberOf, owner_memberOf, hindex, hwhole, List.append_assoc, List.take_left,
      ← hwhole] at howner
  have hfront : ∀ segment ∈ before ++ ["prototype"], '.' ∉ segment.toList := by
    rw [hwhole] at hdots
    exact fun segment hsegment => hdots segment (List.mem_append_left _ hsegment)
  have hsegments := congrArg Text.segments hsame
  rw [Text.segments_joinSegments (by simp) hfront, Text.segments_joinSegments hinit hdots]
    at hsegments
  have hlength := congrArg List.length (hsegments.trans hwhole)
  simp at hlength

/-- A name that goes on below a member of a prototype is taken for one long name. -/
example :
    builtinMember? ["RegExp", "prototype", "exec", "length"] =
      some (.own "RegExp.prototype" "exec.length") := by
  decide

/-- Where no prototype stands before the last two segments, the default probe of a dotted name tests
the last segment on the object that the others name: as a well-known symbol if the at-signs say so,
else as a property of the object itself. -/
theorem compile_builtinProbe
    (hdots : ∀ segment ∈ init ++ [last], '.' ∉ segment.toList)
    (hinit : init ≠ [])
    (hlast : last ≠ "prototype")
    (h : "prototype" ∉ init.dropLast) :
    (builtinProbe (Text.joinSegments (init ++ [last]))).compile =
      match Text.dropStart? "@@" last with
      | some symbol => (memberOf init last).symbolCode symbol
      | none => (memberOf init last).guarded (memberOf init last).ownCode := by
  have hsegments : Text.segments (Text.joinSegments (init ++ [last])) = init ++ [last] :=
    Text.segments_joinSegments (by simp) hdots
  have hname : '.' ∉ last.toList := hdots last (by simp)
  rw [builtinProbe, hsegments, builtinMember?_of_not_mem hinit hlast h, Probe.TestCode.compile,
    code_memberOf hname]

end builtinMember

end Build
end FeatureProbes
