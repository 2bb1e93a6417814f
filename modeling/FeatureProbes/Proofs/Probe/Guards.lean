import FeatureProbes.Proofs.Probe.Runtime
import FeatureProbes.Proofs.Text.Affix
import Mathlib.Data.List.Induction
import Mathlib.Data.List.Infix

/-!
# Guarded looks at properties

The code of a look at a property is a row of conditions.  Those in front ask for every segment of
the object's name in turn, each in the object that the segments before it stand for, and only the
last one asks for the property.  So where a segment is missing, its own condition is false and
nothing behind it is evaluated.

In a runtime whose objects fit the name, the code is evaluated without failing.  It is true if and
only if all segments are there and the object has the property.
-/

namespace FeatureProbes
namespace Probe

open Thing (Reaches reaches_append_singleton_iff value?_append_singleton value?_self)

/-! ## The conditions for the segments of a name -/

namespace Condition

/-- The conditions for all segments, each for the object that the segments before it stand for. -/
def guards (segments : List String) : List Condition :=
  segments.zipIdx.map fun (segment, index) =>
    .has (.name segment) (if index = 0 then ["self"] else segments.take index)

theorem map_code_guards
    (segments : List String) :
    (guards segments).map code = guardParts segments := by
  rw [guards, guardParts, List.map_map]
  refine List.map_congr_left ?_
  rintro ⟨segment, index⟩ -
  rw [Function.comp_apply, code_name]
  cases index with
  | zero =>
      rfl
  | succ index =>
      rfl

/-- One more segment is asked for in the object that the others stand for. -/
theorem guards_append_singleton
    (segments : List String)
    (name : String) :
    guards (segments ++ [name]) =
      guards segments ++ [.has (.name name) (if segments = [] then ["self"] else segments)] := by
  have hlast : guards (segments ++ [name]) =
      (segments.zipIdx.map fun (segment, index) => Condition.has (.name segment)
        (if index = 0 then ["self"] else (segments ++ [name]).take index)) ++
        [.has (.name name) (if segments = [] then ["self"] else segments)] := by
    rw [guards, List.zipIdx_append, List.map_append]
    simp
  rw [hlast, guards]
  congr 1
  refine List.map_congr_left ?_
  rintro ⟨segment, index⟩ hmem
  have hindex : index < segments.length := List.snd_lt_of_mem_zipIdx hmem
  dsimp only
  rw [List.take_append_of_le_length (Nat.le_of_lt hindex)]

variable {segments : List String} {global : Thing}

theorem isDotted_front
    {path : List String}
    (h : isDotted segments)
    (hpath : path <+: segments)
    (hne : path ≠ []) :
    isDotted path := by
  obtain ⟨more, rfl⟩ := hpath
  cases path with
  | nil =>
      exact absurd rfl hne
  | cons first path =>
      rw [isDotted, Bool.and_eq_true, List.all_eq_true] at h ⊢
      exact ⟨fun segment hsegment => h.1 segment (List.mem_append_left _ hsegment), h.2⟩

theorem isPlain_of_mem_guards
    (h : isDotted segments)
    {condition : Condition}
    (hmem : condition ∈ guards segments) :
    condition.IsPlain := by
  obtain ⟨⟨segment, index⟩, hsegment, rfl⟩ := List.mem_map.1 hmem
  have hname : isIdentifier segment :=
    isIdentifier_of_isDotted h (List.fst_mem_of_mem_zipIdx hsegment)
  dsimp only
  split
  · exact .name hname (by simp) (by decide)
  · rename_i hindex
    have hsegments : segments ≠ [] := List.ne_nil_of_mem (List.fst_mem_of_mem_zipIdx hsegment)
    have hne : segments.take index ≠ [] := fun hnil =>
      (List.take_eq_nil_iff.1 hnil).elim hindex hsegments
    exact .name hname hne (isDotted_front h (List.take_prefix index segments) hne)

/-- The conditions for the segments tell whether all segments are there. -/
theorem tellWhether_guards
    (h : ∀ path thing, path <+: segments → path ≠ segments → Reaches global path →
      global.value? path = some thing → thing.isObject) :
    TellWhether global (guards segments) (Reaches global segments) := by
  induction segments using List.reverseRecOn with
  | nil =>
      exact tellWhether_nil.congr (iff_of_true trivial .nil)
  | append_singleton segments name ih =>
      have hproper : ∀ path, path <+: segments → path ≠ segments ++ [name] := by
        intro path hpath heq
        have hlength := hpath.length_le
        rw [heq, List.length_append] at hlength
        exact absurd hlength (by simp)
      have hfirst := ih fun path thing hpath _ =>
        h path thing (hpath.trans (List.prefix_append _ _)) (hproper path hpath)
      rw [guards_append_singleton, reaches_append_singleton_iff]
      refine hfirst.append fun hreaches => ?_
      -- The last condition is evaluated only if the segments before it are there.
      obtain ⟨holder, hholder⟩ := hreaches.exists_value?
      have hobject := h segments holder (List.prefix_append _ _)
        (hproper segments List.prefix_rfl) hreaches hholder
      have hpath : global.value? (if segments = [] then ["self"] else segments) = some holder := by
        split
        · rename_i hnil
          rwa [hnil] at hholder
        · exact hholder
      refine (@tellWhether_singleton _ _ (holder.get? (.name name)).isSome ?_).congr ?_
      · simp [holds?, hpath, hobject]
      · simp [hholder]

end Condition

/-! ## The conditions of a look at a property -/

/-- What a runtime has to be like before a dotted name can be looked up in it. -/
structure Thing.Fits (global : Thing) (owner : String) : Prop where
  /-- Whatever a beginning of the name stands for is an object. -/
  objects : ∀ path thing, path <+: Text.segments owner → Reaches global path →
    global.value? path = some thing → thing.isObject
  /-- Where the prototype of something is looked at, there is one. -/
  prototype : ∀ base, owner = base ++ ".prototype" → Reaches global (Text.segments base) →
    Reaches global (Text.segments owner)
  /-- `Symbol` is an object if it is there. -/
  symbols : ∀ thing, global.value? ["Symbol"] = some thing → thing.isObject

/-- Whether a key can be written down: every name can, and a symbol if it is there. -/
def Thing.Knows (global : Thing) : Key → Prop
  | .name _ => True
  | .symbol text => Reaches global ["Symbol", text]

namespace MemberRef

open Condition (TellWhether guards)

/-- The key of the property that is looked at. -/
inductive LooksAt (ref : MemberRef) : Key → Prop where
  | dotted {text : String}
      (htext : isIdentifier text)
      (h : ref.property = "Symbol." ++ text) :
      LooksAt ref (.symbol text)
  | marked {text : String}
      (htext : isIdentifier text)
      (h : ref.property = "@@" ++ text) :
      LooksAt ref (.symbol text)
  | flagged
      (htext : isIdentifier ref.property)
      (h : ref.isSymbol) :
      LooksAt ref (.symbol ref.property)
  | plain
      (htext : isIdentifier ref.property)
      (h : ref.isSymbol = false) :
      LooksAt ref (.name ref.property)

theorem LooksAt.isIdentifier
    {ref : MemberRef}
    {key : Key}
    (h : ref.LooksAt key) :
    isIdentifier key.text := by
  cases h with
  | dotted htext _ =>
      exact htext
  | marked htext _ =>
      exact htext
  | flagged htext _ =>
      exact htext
  | plain htext _ =>
      exact htext

/-- The property with a key that is found in an object.  A symbol may always be inherited. -/
def found? (ref : MemberRef) (key : Key) (thing : Thing) : Option Thing :=
  match key with
  | .name _ => if ref.isOwn then thing.own? key else thing.get? key
  | .symbol _ => thing.get? key

/-- The condition that asks for the property. -/
def lookup (ref : MemberRef) : Key → Condition
  | .name text =>
      if ref.isOwn then .hasOwn (Text.segments ref.owner) text
      else .has (.name text) (Text.segments ref.owner)
  | .symbol text => .has (.symbol text) (Text.segments ref.owner)

/-- The conditions under which a key can be written down. -/
def keyGuards : Key → List Condition
  | .name _ => []
  | .symbol text => guards ["Symbol", text]

/-- The conditions under which the object is there. -/
def ownerGuards (ref : MemberRef) : List Condition :=
  if ref.owner = "self" then [] else guards (Text.segments ref.guardedOwner)

def conditions (ref : MemberRef) (key : Key) : List Condition :=
  keyGuards key ++ ref.ownerGuards ++ [ref.lookup key]

section Texts

variable {ref : MemberRef} {key : Key} {condition : Condition} {texts row : List String}

/-- A conjunction in front of a conjunction is one conjunction. -/
theorem allOf_append_allOf
    (hrow : row ≠ []) :
    allOf (texts ++ [allOf row]) = allOf (texts ++ row) := by
  cases texts with
  | nil =>
      exact String.intercalate_singleton
  | cons text texts =>
      have htexts : text :: texts ≠ [] := List.cons_ne_nil _ _
      rw [allOf, allOf, allOf, String.intercalate_append_of_ne_nil htexts (List.cons_ne_nil _ _),
        String.intercalate_append_of_ne_nil htexts hrow, String.intercalate_singleton]

theorem guarded_code
    (ref : MemberRef)
    (condition : Condition) :
    ref.guarded condition.code = allOf ((ref.ownerGuards ++ [condition]).map Condition.code) := by
  rw [guarded, ownerGuards, List.map_append, List.map_singleton]
  split
  · exact String.intercalate_singleton.symm
  · have hguards : guardParts (Text.segments ref.guardedOwner) ≠ [] := by
      simpa [guardParts] using Text.segments_ne_nil _
    rw [Condition.map_code_guards, ownerGuard, allOf, allOf, allOf,
      String.intercalate_append_of_ne_nil hguards (List.cons_ne_nil _ _),
      String.intercalate_cons_of_ne_nil (List.cons_ne_nil _ _), String.intercalate_singleton]

theorem lookup_code_symbol
    (ref : MemberRef)
    (text : String) :
    (ref.lookup (.symbol text)).code = "Symbol." ++ text ++ " in " ++ ref.owner := by
  rw [lookup, Condition.code_symbol, Text.joinSegments_segments]

theorem lookup_code_name
    (ref : MemberRef) :
    (ref.lookup (.name ref.property)).code =
      if ref.isOwn then ref.ownCode else has ref.property ref.owner := by
  by_cases hown : ref.isOwn
  · have hlookup : ref.lookup (.name ref.property) =
        .hasOwn (Text.segments ref.owner) ref.property := if_pos hown
    rw [hlookup, if_pos hown, Condition.code_hasOwn, Text.joinSegments_segments]
    rfl
  · have hlookup : ref.lookup (.name ref.property) =
        .has (.name ref.property) (Text.segments ref.owner) := if_neg hown
    rw [hlookup, if_neg hown, Condition.code_name, Text.joinSegments_segments]
    rfl

theorem symbolCode_eq_allOf
    (ref : MemberRef)
    (text : String) :
    ref.symbolCode text = allOf ((ref.conditions (.symbol text)).map Condition.code) := by
  have hkey : (keyGuards (.symbol text)).map Condition.code =
      [has "Symbol" "self", has text "Symbol"] :=
    Condition.map_code_guards ["Symbol", text]
  calc ref.symbolCode text
      = allOf ([has "Symbol" "self", has text "Symbol"] ++
          [allOf ((ref.ownerGuards ++ [ref.lookup (.symbol text)]).map Condition.code)]) := by
        rw [symbolCode, ← lookup_code_symbol, guarded_code]
        rfl
    _ = allOf ([has "Symbol" "self", has text "Symbol"] ++
          (ref.ownerGuards ++ [ref.lookup (.symbol text)]).map Condition.code) :=
        allOf_append_allOf (by simp)
    _ = allOf ((ref.conditions (.symbol text)).map Condition.code) := by
        rw [conditions, List.append_assoc, @List.map_append _ _ _ (keyGuards _), hkey]

theorem propertyCode_eq_allOf
    (ref : MemberRef) :
    ref.propertyCode = allOf ((ref.conditions (.name ref.property)).map Condition.code) := by
  rw [propertyCode, ← lookup_code_name, guarded_code]
  rfl

theorem code_of_symbol?_eq_some
    {text : String}
    (hconstructor : Text.dropStart? "constructor." ref.property = none)
    (hsymbol : ref.symbol? = some text) :
    ref.code = allOf ((ref.conditions (.symbol text)).map Condition.code) := by
  rw [code, hconstructor, hsymbol]
  exact symbolCode_eq_allOf ref text

/-- The code of a look at a property is that of its conditions. -/
theorem code_eq_allOf
    (h : ref.LooksAt key) :
    ref.code = allOf ((ref.conditions key).map Condition.code) := by
  -- The marks of other keys have characters that no identifier has.
  have hplain : isIdentifier ref.property →
      Text.dropStart? "constructor." ref.property = none ∧
        Text.dropStart? "Symbol." ref.property = none ∧
          Text.dropStart? "@@" ref.property = none := by
    intro hname
    have hdot : '.' ∉ ref.property.toList := not_mem_of_isIdentifier hname (by decide)
    have hmark : '@' ∉ ref.property.toList := not_mem_of_isIdentifier hname (by decide)
    exact ⟨Text.dropStart?_eq_none '.' (by decide) hdot,
      Text.dropStart?_eq_none '.' (by decide) hdot, Text.dropStart?_eq_none '@' (by decide) hmark⟩
  cases h with
  | @dotted text htext h =>
      refine code_of_symbol?_eq_some ?_ ?_
      · rw [h]
        exact Text.dropStart?_append_eq_none rfl rfl (by decide)
      · rw [symbol?, Text.dropStart?_eq_some_iff.2 h]
  | @marked text htext h =>
      refine code_of_symbol?_eq_some ?_ ?_
      · rw [h]
        exact Text.dropStart?_append_eq_none rfl rfl (by decide)
      · have hdotted : Text.dropStart? "Symbol." ref.property = none := by
          rw [h]
          exact Text.dropStart?_append_eq_none rfl rfl (by decide)
        rw [symbol?, hdotted, Text.dropStart?_eq_some_iff.2 h]
  | flagged htext h =>
      obtain ⟨hconstructor, hdotted, hmarked⟩ := hplain htext
      refine code_of_symbol?_eq_some hconstructor ?_
      rw [symbol?, hdotted, hmarked]
      exact if_pos h
  | plain htext h =>
      obtain ⟨hconstructor, hdotted, hmarked⟩ := hplain htext
      have hsymbol : ref.symbol? = none := by
        rw [symbol?, hdotted, hmarked]
        exact if_neg (by simp [h])
      rw [code, hconstructor, hsymbol]
      exact propertyCode_eq_allOf ref

end Texts

section Evaluation

variable {global : Thing} {ref : MemberRef} {key : Key}

/-- The name that is guarded is the object's name or what is in front of its last segment. -/
theorem segments_guardedOwner
    (ref : MemberRef) :
    Text.segments ref.owner = Text.segments ref.guardedOwner ∨
      ref.owner = ref.guardedOwner ++ ".prototype" ∧
        Text.segments ref.owner = Text.segments ref.guardedOwner ++ ["prototype"] := by
  rw [guardedOwner]
  cases hbase : Text.dropEnd? ".prototype" ref.owner with
  | none =>
      exact Or.inl rfl
  | some base =>
      have howner : ref.owner = base ++ ".prototype" := Text.dropEnd?_eq_some_iff.1 hbase
      have hdot : base ++ ".prototype" = base ++ "." ++ "prototype" := by
        rw [String.append_assoc]
        rfl
      rw [Option.getD_some]
      refine Or.inr ⟨howner, ?_⟩
      rw [howner, hdot, Text.segments_append, @Text.segments_of_not_mem "prototype" (by decide)]

theorem tellWhether_keyGuards
    (hfits : global.Fits ref.owner)
    (key : Key) :
    TellWhether global (keyGuards key) (global.Knows key) := by
  cases key with
  | name text =>
      exact Condition.tellWhether_nil
  | symbol text =>
      refine Condition.tellWhether_guards fun path thing hpath hne _ hthing => ?_
      rcases List.prefix_cons_iff.1 hpath with rfl | ⟨more, rfl, hmore⟩
      · exact hfits.objects [] thing (List.nil_prefix) .nil hthing
      · rcases List.prefix_cons_iff.1 hmore with rfl | ⟨last, rfl, hlast⟩
        · exact hfits.symbols thing hthing
        · exact absurd (by rw [List.prefix_nil.1 hlast]) hne

theorem tellWhether_ownerGuards
    (hfits : global.Fits ref.owner) :
    TellWhether global ref.ownerGuards
      (ref.owner = "self" ∨ Reaches global (Text.segments ref.owner)) := by
  unfold ownerGuards
  split
  · rename_i hself
    exact Condition.tellWhether_nil.congr (iff_of_true trivial (Or.inl hself))
  · rename_i hself
    rw [or_iff_right hself]
    rcases segments_guardedOwner ref with heq | ⟨howner, heq⟩
    · rw [← heq]
      exact Condition.tellWhether_guards fun path thing hpath _ => hfits.objects path thing hpath
    · refine (Condition.tellWhether_guards fun path thing hpath _ =>
        hfits.objects path thing ?_).congr ?_
      · rw [heq]
        exact hpath.trans (List.prefix_append _ _)
      · refine ⟨hfits.prototype _ howner, fun hreaches => ?_⟩
        rw [heq] at hreaches
        exact (reaches_append_singleton_iff.1 hreaches).1

theorem tellWhether_lookup
    {thing : Thing}
    (hknows : global.Knows key)
    (hthing : global.value? (Text.segments ref.owner) = some thing)
    (hobject : thing.isObject) :
    TellWhether global [ref.lookup key]
      (∃ thing, global.value? (Text.segments ref.owner) = some thing ∧
        (ref.found? key thing).isSome) := by
  have hholds : (ref.lookup key).holds? global = some (ref.found? key thing).isSome := by
    cases key with
    | name text =>
        by_cases hown : ref.isOwn <;>
          simp [lookup, found?, hown, Condition.holds?, hthing, hobject]
    | symbol text =>
        obtain ⟨symbol, hsymbol⟩ := hknows.exists_value?
        simp [lookup, found?, Condition.holds?, hsymbol, hthing, hobject]
  refine (Condition.tellWhether_singleton hholds).congr ?_
  simp [hthing]

/-- A name that fits and is there stands for an object. -/
theorem exists_value?_of_fits
    (hfits : global.Fits ref.owner)
    (h : ref.owner = "self" ∨ Reaches global (Text.segments ref.owner)) :
    ∃ thing, global.value? (Text.segments ref.owner) = some thing ∧ thing.isObject := by
  rcases h with hself | hreaches
  · have hsegments : Text.segments ref.owner = ["self"] := by
      rw [hself]
      exact Text.segments_of_not_mem (by decide)
    exact ⟨global, by rw [hsegments, value?_self],
      hfits.objects [] global List.nil_prefix .nil rfl⟩
  · obtain ⟨thing, hthing⟩ := hreaches.exists_value?
    exact ⟨thing, hthing, hfits.objects _ thing List.prefix_rfl hreaches hthing⟩

theorem isPlain_of_mem_conditions
    (hkey : ref.LooksAt key)
    (howner : isDotted (Text.segments ref.owner))
    {condition : Condition}
    (hcondition : condition ∈ ref.conditions key) :
    condition.IsPlain := by
  have hne : Text.segments ref.owner ≠ [] := Text.segments_ne_nil ref.owner
  have hguarded : isDotted (Text.segments ref.guardedOwner) := by
    rcases segments_guardedOwner ref with heq | ⟨-, heq⟩
    · rwa [← heq]
    · rw [heq] at howner
      exact Condition.isDotted_front howner (List.prefix_append _ _) (Text.segments_ne_nil _)
  rw [conditions, List.mem_append, List.mem_append, List.mem_singleton] at hcondition
  rcases hcondition with (hcondition | hcondition) | rfl
  · cases key with
    | name text =>
        cases hcondition
    | symbol text =>
        refine Condition.isPlain_of_mem_guards ?_ hcondition
        have hfirst : isIdentifier "Symbol" ∧ "Symbol" ∉ Script.reservedWords := by
          decide
        have htext : isIdentifier text := hkey.isIdentifier
        simp [isDotted, hfirst, htext]
  · unfold ownerGuards at hcondition
    split at hcondition
    · cases hcondition
    · exact Condition.isPlain_of_mem_guards hguarded hcondition
  · cases key with
    | name text =>
        unfold lookup
        dsimp only
        split
        · exact .hasOwn hkey.isIdentifier hne howner
        · exact .name hkey.isIdentifier hne howner
    | symbol text =>
        exact .symbol hkey.isIdentifier hne howner

/-- The code of a look at a property is evaluated without failing, and it is true if and only if
every segment of the object's name is there, the key can be written down, and the property is found
in the object. -/
theorem evaluate?_code
    {global : Thing}
    {ref : MemberRef}
    {key : Key}
    (hkey : ref.LooksAt key)
    (howner : isDotted (Text.segments ref.owner))
    (hfits : global.Fits ref.owner) :
    ∃ result, evaluate? global ref.code = some result ∧
      (result = true ↔
        (ref.owner = "self" ∨ Reaches global (Text.segments ref.owner)) ∧ global.Knows key ∧
          ∃ thing, global.value? (Text.segments ref.owner) = some thing ∧
            (ref.found? key thing).isSome) := by
  have hplain : ∀ condition ∈ ref.conditions key, condition.IsPlain := fun condition =>
    isPlain_of_mem_conditions hkey howner
  have hne : ref.conditions key ≠ [] := by
    simp [conditions]
  have hguards := (tellWhether_keyGuards hfits key).append fun _ => tellWhether_ownerGuards hfits
  rw [code_eq_allOf hkey, Condition.evaluate?_allOf global hne hplain]
  -- The object is there when it is asked for the property.
  refine (hguards.append fun hboth => ?_).congr (and_assoc.trans and_left_comm)
  obtain ⟨thing, hthing, hobject⟩ := exists_value?_of_fits hfits hboth.2
  exact tellWhether_lookup hboth.1 hthing hobject

/-- A runtime with ladders that inherit their iterator. -/
def workshop : Thing :=
  .object
    [(.name "Symbol", .object [(.name "iterator", .other)] []),
      (.name "Ladder", .object [(.name "prototype", .object [] [(.symbol "iterator", .other)])] [])]
    []

def rungs : MemberRef := ⟨"Ladder.prototype", "@@iterator", true, false⟩

theorem looksAt_rungs :
    rungs.LooksAt (.symbol "iterator") :=
  .marked (by decide) rfl

theorem reaches_rungs :
    Reaches workshop (Text.segments rungs.owner) := by
  have hsegments : Text.segments rungs.owner = [] ++ ["Ladder"] ++ ["prototype"] := by
    decide
  rw [hsegments]
  exact .snoc (.snoc .nil rfl rfl) rfl rfl

theorem fits_workshop :
    workshop.Fits rungs.owner := by
  refine ⟨?_, fun _ _ _ => reaches_rungs, ?_⟩
  · have hsegments : Text.segments rungs.owner = ["Ladder", "prototype"] := by
      decide
    intro path thing hpath _ hthing
    rw [hsegments, ← List.mem_inits] at hpath
    have hall : ∀ path ∈ ["Ladder", "prototype"].inits,
        (workshop.value? path).all Thing.isObject := by
      decide
    have hobject := hall path hpath
    rwa [hthing] at hobject
  · rintro thing hthing
    obtain rfl := Option.some.inj hthing
    rfl

theorem evaluate?_code_rungs :
    rungs.LooksAt (.symbol "iterator") ∧ isDotted (Text.segments rungs.owner) ∧
      workshop.Fits rungs.owner ∧ evaluate? workshop rungs.code = some true := by
  have howner : isDotted (Text.segments rungs.owner) := by
    decide
  obtain ⟨result, hresult, hiff⟩ := evaluate?_code looksAt_rungs howner fits_workshop
  refine ⟨looksAt_rungs, howner, fits_workshop, hresult.trans (congrArg some (hiff.2 ?_))⟩
  exact ⟨Or.inr reaches_rungs, .snoc (.snoc .nil rfl rfl) rfl rfl, _, rfl, rfl⟩

/-- An object's own symbol is not told from an inherited one. -/
theorem evaluate?_rungs_inherited :
    rungs.LooksAt (.symbol "iterator") ∧ isDotted (Text.segments rungs.owner) ∧
      workshop.Fits rungs.owner ∧ rungs.isOwn ∧
      ¬∃ result, evaluate? workshop rungs.code = some result ∧
        (result = true ↔
          (rungs.owner = "self" ∨ Reaches workshop (Text.segments rungs.owner)) ∧
            workshop.Knows (.symbol "iterator") ∧
              ∃ thing, workshop.value? (Text.segments rungs.owner) = some thing ∧
                (thing.own? (.symbol "iterator")).isSome) := by
  have howner : isDotted (Text.segments rungs.owner) := by
    decide
  refine ⟨looksAt_rungs, howner, fits_workshop, rfl, ?_⟩
  rintro ⟨result, hresult, hiff⟩
  have htrue : evaluate? workshop rungs.code = some true := by
    decide +kernel
  obtain ⟨-, -, thing, hthing, hown⟩ := hiff.1 (Option.some.inj (hresult.symm.trans htrue))
  have hnone : (workshop.value? (Text.segments rungs.owner)).all fun thing =>
      (thing.own? (.symbol "iterator")).isNone := by
    decide
  rw [hthing, Option.all_some, Option.isNone_iff_eq_none] at hnone
  rw [hnone] at hown
  cases hown

end Evaluation

end MemberRef

end Probe
end FeatureProbes
