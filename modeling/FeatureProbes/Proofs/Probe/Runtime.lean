import FeatureProbes.Proofs.Probe.Condition
import FeatureProbes.Proofs.Text.Segments
import FeatureProbes.Script.Name
import FeatureProbes.Script.Token

/-!
# Conditions at run time

A runtime is a tree of objects with the global object as its root.  An object has properties of its
own and properties that it inherits, and the key of a property is a name or a well-known symbol.

The conditions of a probe ask whether an object has a property.  Their text is read and evaluated
from left to right, and what stands behind a false condition is not evaluated.  Evaluating fails
where a dotted name goes through a property that is missing, and where something that is no object
is asked for a property.
-/

namespace FeatureProbes
namespace Probe

/-! ## Runtimes -/

/-- The key of a property. -/
inductive Key where
  | name (text : String)
  /-- A well-known symbol. -/
  | symbol (text : String)
  deriving Repr, DecidableEq

def Key.text : Key → String
  | name text => text
  | symbol text => text

/-- Something that a property can be. -/
inductive Thing where
  /-- An object with its own properties and those that it inherits. -/
  | object (own inherited : List (Key × Thing))
  /-- Something that has no properties. -/
  | other
  deriving Repr

namespace Thing

/-- The first of some properties with a key. -/
def find? (properties : List (Key × Thing)) (key : Key) : Option Thing :=
  (properties.find? fun property => property.1 = key).map Prod.snd

/-- The property of an object itself. -/
def own? (key : Key) : Thing → Option Thing
  | object own _ => find? own key
  | other => none

/-- The property that an object has or inherits. -/
def get? (key : Key) : Thing → Option Thing
  | object own inherited => (find? own key).or (find? inherited key)
  | other => none

def isObject : Thing → Bool
  | object _ _ => true
  | other => false

/-- What the segments of a dotted name lead to, one after the other. -/
def follow? : List String → Thing → Option Thing
  | [], thing => some thing
  | name :: more, thing => (thing.get? (.name name)).bind (follow? more)

/-- What a dotted name stands for in the runtime of a global object.  Its first segment is a
variable: `self` is the global object, and every other variable is one of its properties. -/
def value? (global : Thing) : List String → Option Thing
  | [] => some global
  | first :: more =>
      (if first = "self" then some global else global.get? (.name first)).bind (follow? more)

/-- Every segment of a dotted name is the name of a property of what the segments before it stand
for. -/
inductive Reaches (global : Thing) : List String → Prop where
  | nil : Reaches global []
  | snoc {path : List String} {name : String} {holder : Thing}
      (hpath : Reaches global path)
      (hholder : global.value? path = some holder)
      (hname : (holder.get? (.name name)).isSome) :
      Reaches global (path ++ [name])

section Names

variable {global thing holder : Thing} {path more : List String} {name : String}

theorem follow?_append :
    thing.follow? (path ++ more) = (thing.follow? path).bind (follow? more) := by
  induction path generalizing thing with
  | nil =>
      rfl
  | cons name path ih =>
      rw [List.cons_append, follow?, follow?, Option.bind_assoc]
      exact Option.bind_congr fun next _ => ih

theorem value?_self :
    global.value? ["self"] = some global :=
  rfl

/-- Behind a dot stands a property of what is in front of it. -/
theorem value?_append_singleton
    (hne : path ≠ []) :
    global.value? (path ++ [name]) = (global.value? path).bind (get? (.name name)) := by
  cases path with
  | nil =>
      exact absurd rfl hne
  | cons first path =>
      have hlast : follow? [name] = get? (.name name) := by
        funext thing
        exact Option.bind_fun_some _
      rw [List.cons_append, value?, value?, Option.bind_assoc, ← hlast]
      exact Option.bind_congr fun next _ => follow?_append

theorem Reaches.exists_value?
    (h : Reaches global path) :
    ∃ thing, global.value? path = some thing := by
  cases h with
  | nil =>
      exact ⟨global, rfl⟩
  | @snoc path name holder hpath hholder hname =>
      obtain ⟨thing, hthing⟩ := Option.isSome_iff_exists.1 hname
      by_cases hnil : path = []
      · obtain rfl := hnil
        obtain rfl : global = holder := Option.some.inj hholder
        rw [List.nil_append, value?, hthing]
        split
        · exact ⟨global, rfl⟩
        · exact ⟨thing, rfl⟩
      · rw [value?_append_singleton hnil, hholder]
        exact ⟨thing, hthing⟩

theorem reaches_append_singleton_iff :
    Reaches global (path ++ [name]) ↔
      Reaches global path ∧
        ∃ holder, global.value? path = some holder ∧ (holder.get? (.name name)).isSome := by
  constructor
  · intro h
    generalize hsegments : path ++ [name] = segments at h
    cases h with
    | nil =>
        simp at hsegments
    | snoc hpath hholder hname =>
        obtain ⟨rfl, hlast⟩ := List.append_inj' hsegments rfl
        obtain rfl := List.singleton_inj.1 hlast
        exact ⟨hpath, _, hholder, hname⟩
  · rintro ⟨hpath, holder, hholder, hname⟩
    exact .snoc hpath hholder hname

end Names

end Thing

/-! ## Conditions -/

/-- A question for a property of the object that a dotted name stands for. -/
inductive Condition where
  /-- Whether the object has or inherits the property. -/
  | has (key : Key) (path : List String)
  /-- Whether the object itself has the property.  The call is the language's own check. -/
  | hasOwn (path : List String) (name : String)
  deriving Repr, DecidableEq

/-- The expression for a key in front of the operator `in`. -/
def Key.code : Key → String
  | name text => inQuotes text
  | symbol text => "Symbol." ++ text

namespace Condition

def code : Condition → String
  | has key path => key.code ++ " in " ++ Text.joinSegments path
  | hasOwn path name =>
      "Object.prototype.hasOwnProperty.call(" ++ Text.joinSegments path ++ ", " ++
        inQuotes name ++ ")"

/-- Whether a condition holds, unless its evaluation fails. -/
def holds? (global : Thing) : Condition → Option Bool
  | has (.name text) path => do
      let thing ← global.value? path
      if thing.isObject then some (thing.get? (.name text)).isSome else none
  | has (.symbol text) path => do
      let _ ← global.value? ["Symbol", text]
      let thing ← global.value? path
      if thing.isObject then some (thing.get? (.symbol text)).isSome else none
  | hasOwn path name => do
      let thing ← global.value? path
      if thing.isObject then some (thing.own? (.name name)).isSome else none

/-- Whether all conditions hold, unless the evaluation fails.  A condition is evaluated only if
those before it hold. -/
def hold? (global : Thing) : List Condition → Option Bool
  | [] => some true
  | condition :: more => do
      if ← condition.holds? global then hold? global more else some false

end Condition

namespace Condition

/-- Conditions tell whether a statement is true: their evaluation does not fail, and they hold if
and only if it is. -/
def TellWhether (global : Thing) (conditions : List Condition) (statement : Prop) : Prop :=
  ∃ result, hold? global conditions = some result ∧ (result = true ↔ statement)

section TellWhether

variable {global : Thing} {condition : Condition} {conditions more : List Condition}
variable {statement other : Prop}

theorem hold?_append :
    hold? global (conditions ++ more) =
      (hold? global conditions).bind fun holds =>
        if holds then hold? global more else some false := by
  induction conditions with
  | nil =>
      rfl
  | cons condition conditions ih =>
      rw [List.cons_append, hold?, hold?, Option.bind_eq_bind, Option.bind_assoc]
      refine Option.bind_congr fun holds _ => ?_
      cases holds with
      | false =>
          rfl
      | true =>
          exact ih

theorem TellWhether.congr
    (h : TellWhether global conditions statement)
    (hiff : statement ↔ other) :
    TellWhether global conditions other := by
  obtain ⟨result, hresult, hstatement⟩ := h
  exact ⟨result, hresult, hstatement.trans hiff⟩

theorem tellWhether_nil :
    TellWhether global [] True :=
  ⟨true, rfl, iff_of_true rfl trivial⟩

theorem tellWhether_singleton
    {result : Bool}
    (h : condition.holds? global = some result) :
    TellWhether global [condition] (result = true) := by
  refine ⟨result, ?_, Iff.rfl⟩
  rw [hold?, h]
  cases result <;> rfl

/-- The conditions behind others matter only where those others hold. -/
theorem TellWhether.append
    (h : TellWhether global conditions statement)
    (hmore : statement → TellWhether global more other) :
    TellWhether global (conditions ++ more) (statement ∧ other) := by
  obtain ⟨result, hresult, hstatement⟩ := h
  rw [TellWhether, hold?_append, hresult, Option.bind_some]
  cases result with
  | false =>
      exact ⟨false, rfl, iff_of_false Bool.false_ne_true fun hboth =>
        Bool.false_ne_true (hstatement.2 hboth.1)⟩
  | true =>
      obtain ⟨last, hlast, hother⟩ := hmore (hstatement.1 rfl)
      exact ⟨last, hlast, hother.trans (and_iff_right (hstatement.1 rfl)).symm⟩

end TellWhether

end Condition

/-! ## Reading conditions -/

/-- Whether a text can be the name of a property in dotted notation. -/
def isIdentifier (text : String) : Bool :=
  match text.toList with
  | [] => false
  | first :: rest => Script.isNameStart first && rest.all Script.isNamePart

/-- Whether some segments are those of a dotted name that begins with a variable. -/
def isDotted (path : List String) : Bool :=
  path.all isIdentifier && !Script.reservedWords.contains (path.headD "")

/-- The text before the first mark, and what follows the mark. -/
def cut? (mark : Char) (text : List Char) : Option (String × List Char) :=
  match text.dropWhile (· ≠ mark) with
  | [] => none
  | _ :: rest => some (String.ofList (text.takeWhile (· ≠ mark)), rest)

def readPath (text : String) : Option (List String) :=
  if isDotted (Text.segments text) then some (Text.segments text) else none

/-- The name of a property, up to a mark. -/
def readName (mark : Char) (text : List Char) : Option (String × List Char) := do
  let (name, rest) ← cut? mark text
  if isIdentifier name then some (name, rest) else none

/-- The question for a property of an object, behind the beginning of the key. -/
def readHas (key : String → Key) (mark : Char) (between text : List Char) : Option Condition := do
  let (name, rest) ← readName mark text
  let object ← Text.afterStart? between rest
  let path ← readPath (String.ofList object)
  return .has (key name) path

/-- The question for an object's own property, behind the beginning of the call. -/
def readHasOwn (text : List Char) : Option Condition := do
  let (object, rest) ← cut? ',' text
  let path ← readPath object
  let rest ← Text.afterStart? [' ', '"'] rest
  let (name, rest) ← readName '"' rest
  if rest = [')'] then return .hasOwn path name else none

/-- The condition that a text stands for. -/
def readCondition (text : List Char) : Option Condition :=
  match Text.afterStart? ['"'] text with
  | some rest => readHas .name '"' " in ".toList rest
  | none =>
      match Text.afterStart? "Symbol.".toList text with
      | some rest => readHas .symbol ' ' "in ".toList rest
      | none =>
          (Text.afterStart? "Object.prototype.hasOwnProperty.call(".toList text).bind readHasOwn

/-- What a text of conditions is evaluated to, unless it cannot be read or its evaluation fails. -/
def evaluate? (global : Thing) (text : String) : Option Bool := do
  let conditions ← (pieces '&' 0 .outside text.toList).mapM readCondition
  Condition.hold? global conditions

/-! ## Written conditions are read back -/

section Names

variable {c mark : Char} {name text : String} {path : List String}

theorem isNamePart_of_isIdentifier
    (h : isIdentifier name)
    (hc : c ∈ name.toList) :
    Script.isNamePart c := by
  unfold isIdentifier at h
  split at h
  · cases h
  · rename_i first rest htext
    rw [htext] at hc
    rw [Bool.and_eq_true, List.all_eq_true] at h
    rcases List.mem_cons.1 hc with rfl | hc
    · exact Script.isNamePart_of_isNameStart h.1
    · exact h.2 c hc

theorem not_mem_of_isIdentifier
    (h : isIdentifier name)
    (hmark : Script.isNamePart mark = false) :
    mark ∉ name.toList := by
  intro hmem
  rw [isNamePart_of_isIdentifier h hmem] at hmark
  cases hmark

/-- The characters of a dotted name are those of its segments and dots. -/
theorem mem_joinSegments
    (h : c ∈ (Text.joinSegments path).toList) :
    c = '.' ∨ ∃ segment ∈ path, c ∈ segment.toList := by
  rw [Text.toList_joinSegments] at h
  induction path with
  | nil =>
      simp at h
  | cons first rest ih =>
      cases rest with
      | nil =>
          rw [List.map_singleton, List.intercalate_singleton] at h
          exact Or.inr ⟨first, List.mem_cons_self, h⟩
      | cons second more =>
          rw [List.map_cons, List.map_cons, List.intercalate_cons_cons, List.append_assoc,
            List.mem_append, List.mem_append, List.mem_singleton] at h
          rcases h with h | h | h
          · exact Or.inr ⟨first, List.mem_cons_self, h⟩
          · exact Or.inl h
          · exact (ih h).imp_right fun ⟨segment, hsegment, hc⟩ =>
              ⟨segment, List.mem_cons_of_mem _ hsegment, hc⟩

theorem isIdentifier_of_isDotted
    (h : isDotted path)
    {segment : String}
    (hsegment : segment ∈ path) :
    isIdentifier segment := by
  rw [isDotted, Bool.and_eq_true, List.all_eq_true] at h
  exact h.1 segment hsegment

theorem not_mem_joinSegments
    (h : isDotted path)
    (hdot : mark ≠ '.')
    (hmark : Script.isNamePart mark = false) :
    mark ∉ (Text.joinSegments path).toList := by
  intro hmem
  rcases mem_joinSegments hmem with hc | ⟨segment, hsegment, hc⟩
  · exact hdot hc
  · exact not_mem_of_isIdentifier (isIdentifier_of_isDotted h hsegment) hmark hc

theorem readPath_joinSegments
    (hne : path ≠ [])
    (h : isDotted path) :
    readPath (Text.joinSegments path) = some path := by
  have hsegments : Text.segments (Text.joinSegments path) = path :=
    Text.segments_joinSegments hne fun segment hsegment =>
      not_mem_of_isIdentifier (isIdentifier_of_isDotted h hsegment) (by decide)
  rw [readPath, hsegments, if_pos h]

theorem cut?_append
    {rest : List Char}
    (h : mark ∉ text.toList) :
    cut? mark (text.toList ++ mark :: rest) = some (text, rest) := by
  have hall : ∀ c ∈ text.toList, decide (c ≠ mark) = true := by
    intro c hc
    exact decide_eq_true fun heq => h (heq ▸ hc)
  rw [cut?, List.dropWhile_append_of_pos hall, List.takeWhile_append_of_pos hall]
  simp

theorem readName_append
    {rest : List Char}
    (h : isIdentifier name)
    (hmark : Script.isNamePart mark = false) :
    readName mark (name.toList ++ mark :: rest) = some (name, rest) := by
  rw [readName, cut?_append (not_mem_of_isIdentifier h hmark)]
  simp [h]

end Names

namespace Condition

/-- The names of a condition are identifiers. -/
inductive IsPlain : Condition → Prop where
  | name {text : String} {path : List String}
      (htext : isIdentifier text)
      (hne : path ≠ [])
      (hpath : isDotted path) :
      IsPlain (.has (.name text) path)
  | symbol {text : String} {path : List String}
      (htext : isIdentifier text)
      (hne : path ≠ [])
      (hpath : isDotted path) :
      IsPlain (.has (.symbol text) path)
  | hasOwn {name : String} {path : List String}
      (hname : isIdentifier name)
      (hne : path ≠ [])
      (hpath : isDotted path) :
      IsPlain (.hasOwn path name)

variable {condition : Condition}

theorem readHas_append
    {key : String → Key} {mark : Char} {between : List Char} {name : String} {path : List String}
    (hname : isIdentifier name)
    (hmark : Script.isNamePart mark = false)
    (hne : path ≠ [])
    (hpath : isDotted path) :
    readHas key mark between
        (name.toList ++ mark :: (between ++ (Text.joinSegments path).toList)) =
      some (.has (key name) path) := by
  have hobject : Text.afterStart? between (between ++ (Text.joinSegments path).toList) = _ :=
    Text.afterStart?_eq_some_iff.2 rfl
  simp only [readHas, readName_append hname hmark, hobject, String.ofList_toList,
    readPath_joinSegments hne hpath, Option.bind_eq_bind, Option.bind_some]
  rfl

theorem readHasOwn_append
    {name : String} {path : List String}
    (hname : isIdentifier name)
    (hne : path ≠ [])
    (hpath : isDotted path) :
    readHasOwn ((Text.joinSegments path).toList ++ ',' :: ' ' :: '"' ::
        (name.toList ++ ['"', ')'])) =
      some (.hasOwn path name) := by
  have hcut : cut? ',' ((Text.joinSegments path).toList ++ ',' :: ' ' :: '"' ::
      (name.toList ++ ['"', ')'])) = _ :=
    cut?_append (not_mem_joinSegments hpath (by decide) (by decide))
  have hrest : Text.afterStart? [' ', '"'] (' ' :: '"' :: (name.toList ++ ['"', ')'])) =
      some (name.toList ++ ['"', ')']) :=
    Text.afterStart?_eq_some_iff.2 rfl
  have hread : readName '"' (name.toList ++ ['"', ')']) = some (name, [')']) :=
    readName_append hname (by decide)
  simp only [readHasOwn, hcut, readPath_joinSegments hne hpath, hrest, hread, Option.bind_eq_bind,
    Option.bind_some]
  rfl

theorem code_name
    (text : String)
    (path : List String) :
    (Condition.has (.name text) path).code = inQuotes text ++ " in " ++ Text.joinSegments path :=
  rfl

theorem code_symbol
    (text : String)
    (path : List String) :
    (Condition.has (.symbol text) path).code =
      "Symbol." ++ text ++ " in " ++ Text.joinSegments path :=
  rfl

theorem code_hasOwn
    (path : List String)
    (name : String) :
    (Condition.hasOwn path name).code =
      "Object.prototype.hasOwnProperty.call(" ++ Text.joinSegments path ++ ", " ++
        inQuotes name ++ ")" :=
  rfl

/-- A condition is read back from its text. -/
theorem readCondition_code
    (h : condition.IsPlain) :
    readCondition condition.code.toList = some condition := by
  cases h with
  | @name text path htext hne hpath =>
      have hcode : (Condition.has (.name text) path).code.toList = '"' :: (text.toList ++
          '"' :: (" in ".toList ++ (Text.joinSegments path).toList)) := by
        rw [code_name]
        simp only [inQuotes, String.toList_append, List.append_assoc]
        rfl
      rw [hcode]
      exact readHas_append htext (by decide) hne hpath
  | @symbol text path htext hne hpath =>
      have hcode : (Condition.has (.symbol text) path).code.toList = "Symbol.".toList ++
          (text.toList ++ ' ' :: ("in ".toList ++ (Text.joinSegments path).toList)) := by
        rw [code_symbol]
        simp only [String.toList_append, List.append_assoc]
        rfl
      rw [hcode]
      exact readHas_append htext (by decide) hne hpath
  | @hasOwn name path hname hne hpath =>
      have hcode : (Condition.hasOwn path name).code.toList =
          "Object.prototype.hasOwnProperty.call(".toList ++ ((Text.joinSegments path).toList ++
            ',' :: ' ' :: '"' :: (name.toList ++ ['"', ')'])) := by
        rw [code_hasOwn]
        simp only [inQuotes, String.toList_append, List.append_assoc]
        rfl
      rw [hcode]
      exact readHasOwn_append hname hne hpath

theorem isFree_of_forall
    {mark : Char} {text : List Char}
    (h : ∀ c ∈ text, c ≠ mark ∧ c ≠ '"' ∧ c ≠ '\x27' ∧ c ≠ '\x60') :
    isFree mark .outside text := by
  induction text with
  | nil =>
      rfl
  | cons c text ih =>
      obtain ⟨hmark, hquotes⟩ := h c List.mem_cons_self
      have hnext : Place.outside.next c = .outside := by
        simp [Place.next, hquotes]
      refine isFree_cons_iff.2 ⟨fun _ => hmark, ?_⟩
      rw [hnext]
      exact ih fun d hd => h d (List.mem_cons_of_mem c hd)

theorem isFree_identifier
    {name : String}
    (h : isIdentifier name) :
    isFree '&' .outside name.toList := by
  refine isFree_of_forall fun c hc => ?_
  have hpart := isNamePart_of_isIdentifier h hc
  refine ⟨?_, ?_, ?_, ?_⟩ <;> rintro rfl <;> cases hpart

theorem isFree_quoted
    {name : String}
    (h : isIdentifier name) :
    isFree '&' .outside (inQuotes name).toList := by
  refine isFree_inQuotes (by decide) fun c hc => ?_
  have hpart := isNamePart_of_isIdentifier h hc
  refine ⟨?_, ?_⟩ <;> rintro rfl <;> cases hpart

theorem isFree_path
    {path : List String}
    (h : isDotted path) :
    isFree '&' .outside (Text.joinSegments path).toList := by
  refine isFree_of_forall fun c hc => ?_
  refine ⟨?_, ?_, ?_, ?_⟩ <;> rintro rfl <;>
    exact not_mem_joinSegments h (by decide) (by decide) hc

/-- No condition contains the operator between conditions. -/
theorem isFree_code
    (h : condition.IsPlain) :
    isFree '&' .outside condition.code.toList := by
  have hin : isFree '&' .outside " in ".toList := by
    decide
  cases h with
  | name htext hne hpath =>
      rw [code_name]
      exact isFree_toList_append (isFree_toList_append (isFree_quoted htext) hin)
        (isFree_path hpath)
  | symbol htext hne hpath =>
      have hsymbol : isFree '&' .outside "Symbol.".toList := by
        decide
      rw [code_symbol]
      exact isFree_toList_append
        (isFree_toList_append (isFree_toList_append hsymbol (isFree_identifier htext)) hin)
        (isFree_path hpath)
  | hasOwn hname hne hpath =>
      have hcall : isFree '&' .outside "Object.prototype.hasOwnProperty.call(".toList := by
        decide +kernel
      have hcomma : isFree '&' .outside ", ".toList := by
        decide
      have hclose : isFree '&' .outside ")".toList := by
        decide
      rw [code_hasOwn]
      exact isFree_toList_append
        (isFree_toList_append
          (isFree_toList_append (isFree_toList_append hcall (isFree_path hpath)) hcomma)
          (isFree_quoted hname))
        hclose

variable {conditions : List Condition}

theorem mapM_readCondition
    (h : ∀ condition ∈ conditions, condition.IsPlain) :
    (conditions.map fun condition => condition.code.toList).mapM readCondition =
      some conditions := by
  induction conditions with
  | nil =>
      rfl
  | cons condition conditions ih =>
      rw [List.map_cons, List.mapM_cons, readCondition_code (h condition List.mem_cons_self),
        ih fun other hother => h other (List.mem_cons_of_mem _ hother)]
      rfl

/-- The text of some conditions is evaluated like the conditions. -/
theorem evaluate?_allOf
    (global : Thing)
    (hne : conditions ≠ [])
    (h : ∀ condition ∈ conditions, condition.IsPlain) :
    evaluate? global (allOf (conditions.map code)) = hold? global conditions := by
  have hpieces : pieces '&' 0 .outside (allOf (conditions.map code)).toList =
      conditions.map fun condition => condition.code.toList := by
    rw [allOf, toList_intercalate_and, List.map_map]
    refine pieces_intercalate (by decide) (by simpa using hne) ?_
    intro text htext
    obtain ⟨condition, hcondition, rfl⟩ := List.mem_map.1 htext
    exact isFree_code (h condition hcondition)
  rw [evaluate?, hpieces, mapM_readCondition h]
  rfl

end Condition

end Probe
end FeatureProbes
