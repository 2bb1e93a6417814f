import FeatureProbes.Build.Document
import FeatureProbes.Proofs.Probe.Encoding
import FeatureProbes.Proofs.SortedMap
import FeatureProbes.Proofs.WebIdl.Encoding

/-!
# Documents with definitions as text or as data

A fragment of a document is the text of definitions, or definitions as data.  A build from a
document with texts comes to the same as a build from the document in which they are replaced by the
definitions that they are read as: the two documents are read field by field, and the fragments that
are read have the same definitions.

The text of a document is read only if it is not nested too deep.  A type that is short as text can
be nested deep as data, so there are definitions that are read as text and refused as data.
-/

namespace FeatureProbes
namespace Build

open Json (ReadBack Record Value)
open Probe (CompiledTest RawTest Table TestCode)
open WebIdl (Definition Merged)

/-! ## Documents that say the same -/

/-- Two values of a fragment are the same, or the text of definitions and these definitions. -/
inductive Source.Respells : Value → Value → Prop where
  | same (value : Value) : Respells value value
  | definitions {idl : String} {read : List Definition}
      (h : WebIdl.parse idl.toList = .ok read) :
      Respells (.string idl) (.ofList Definition.toValue read)

/-- Two fields of documents are the same, or fragments that say the same. -/
inductive FieldRespells : String × Value → String × Value → Prop where
  | same (field : String × Value) : FieldRespells field field
  | fragments {name : String} {members members' : List (String × Value)}
      (hname : name ∈ ["specIdl", "customIdl"])
      (h : List.Forall₂ (fun member member' => member.1 = member'.1 ∧
        Source.Respells member.2 member'.2) members members') :
      FieldRespells (name, .object members) (name, .object members')

/-- Two documents, written with the names of their fields or without, have fields that say the
same. -/
inductive Document.Respells : Value → Value → Prop where
  | object {members members' : List (String × Value)}
      (h : List.Forall₂ FieldRespells members members') :
      Respells (.object members) (.object members')
  | array {items items' : List Value}
      (hlength : items.length = items'.length)
      (h : List.Forall₂ FieldRespells (Document.fieldNames.zip items)
        (Document.fieldNames.zip items')) :
      Respells (.array items) (.array items')

/-! ## Reading related values -/

section Related

variable {α β γ δ : Type} {R : α → β → Prop} {S : γ → δ → Prop}

theorem rel_refl
    {R : α → α → Prop}
    (h : ∀ a, R a a)
    (found : Option α) :
    Option.Rel R found found := by
  cases found with
  | none =>
      exact .none
  | some a =>
      exact .some (h a)

theorem rel_bind
    {first : Option α} {second : Option β} {f : α → Option γ} {g : β → Option δ}
    (h : Option.Rel R first second)
    (hnext : ∀ a b, R a b → Option.Rel S (f a) (g b)) :
    Option.Rel S (first.bind f) (second.bind g) := by
  cases h with
  | none =>
      exact .none
  | some h =>
      exact hnext _ _ h

theorem rel_mapM
    {items : List α} {items' : List β} {f : α → Option γ} {g : β → Option δ}
    (h : List.Forall₂ R items items')
    (hitem : ∀ a b, R a b → Option.Rel S (f a) (g b)) :
    Option.Rel (List.Forall₂ S) (items.mapM f) (items'.mapM g) := by
  induction h with
  | nil =>
      exact .some .nil
  | cons hhead _ ih =>
      rw [List.mapM_cons, List.mapM_cons]
      refine rel_bind (hitem _ _ hhead) fun a b hab => rel_bind ih fun more more' hmore => ?_
      exact .some (.cons hab hmore)

end Related

/-- Two fragments have the same definitions, or the same is wrong with both. -/
def Source.Alike (_ : String) (first second : Source) : Prop :=
  ∀ name, first.load name = second.load name

theorem Source.rel_ofValue?
    {value value' : Value}
    (h : Source.Respells value value')
    (key : String) :
    Option.Rel (Source.Alike key) (Source.ofValue? value) (Source.ofValue? value') := by
  cases h with
  | same =>
      exact rel_refl (fun _ _ => rfl) _
  | @definitions idl read h =>
      have hread : Source.ofValue? (.ofList Definition.toValue read) =
          some (.definitions read) := by
        have hlist := Value.list?_ofList Definition.ofValue?_toValue read
        rw [Value.ofList] at hlist ⊢
        rw [Source.ofValue?, hlist]
        · rfl
        · intro idl' hstring
          cases hstring
      rw [hread, Source.ofValue?]
      refine .some fun name => ?_
      rw [Source.load, Source.load, h]

/-- Fragments that say the same are read as fragments with the same definitions. -/
theorem Sources.rel_ofValue?
    {members members' : List (String × Value)}
    (h : List.Forall₂ (fun member member' => member.1 = member'.1 ∧
      Source.Respells member.2 member'.2) members members') :
    Option.Rel (SortedMap.Agree Source.Alike) (Sources.ofValue? (.object members))
      (Sources.ofValue? (.object members')) := by
  have hentries := rel_mapM (S := SortedMap.EntryAgree Source.Alike) h
    (f := fun member => do return (member.1, ← Source.ofValue? member.2))
    (g := fun member => do return (member.1, ← Source.ofValue? member.2)) (by
      rintro ⟨key, value⟩ ⟨_, value'⟩ ⟨rfl, hvalue⟩
      exact rel_bind (Source.rel_ofValue? hvalue key) fun _ _ halike => .some ⟨rfl, halike⟩)
  exact rel_bind hentries fun _ _ hagree => .some (SortedMap.agree_ofList hagree)

/-- The definitions of such fragments are the same. -/
theorem Sources.load_eq
    {first second : Sources}
    (h : SortedMap.Agree Source.Alike first second) :
    first.load = second.load := by
  have hentries : ∀ {entries entries' : List (String × Source)},
      List.Forall₂ (SortedMap.EntryAgree Source.Alike) entries entries' →
      (entries.mapM fun entry => do return (entry.1, ← entry.2.load entry.1)) =
        entries'.mapM fun entry => do return (entry.1, ← entry.2.load entry.1) := by
    intro entries entries' hagree
    induction hagree with
    | nil =>
        rfl
    | @cons entry entry' _ _ hentry _ ih =>
        obtain ⟨name, source⟩ := entry
        obtain ⟨_, source'⟩ := entry'
        obtain ⟨rfl, hload⟩ := hentry
        have hsame : source.load name = source'.load name := hload name
        rw [List.mapM_cons, List.mapM_cons, ih]
        dsimp only
        rw [hsame]
  have hload : ∀ sources : Sources, sources.load = (do
      let fragments ← sources.entries.mapM fun entry => do return (entry.1, ← entry.2.load entry.1)
      return .ofList fragments) := fun _ => rfl
  rw [hload, hload, hentries h]

/-! ## Reading documents -/

section Records

variable {fields fields' : List (String × Value)}

theorem FieldRespells.name_eq
    {field field' : String × Value}
    (h : FieldRespells field field') :
    field.1 = field'.1 := by
  cases h <;> rfl

theorem repeats_eq
    (names : List String)
    (h : List.Forall₂ FieldRespells fields fields') :
    Record.repeats names fields = Record.repeats names fields' := by
  have hnames : fields.map Prod.fst = fields'.map Prod.fst := by
    rw [← List.forall₂_eq_eq_eq, List.forall₂_map_left_iff, List.forall₂_map_right_iff]
    exact h.imp fun _ _ hfield => hfield.name_eq
  have hcount : ∀ (fields : List (String × Value)) name,
      fields.countP (fun field => field.1 == name) =
        (fields.map Prod.fst).countP fun other => other == name := by
    intro fields name
    rw [List.countP_map]
    rfl
  simp only [Record.repeats, hcount, hnames]

/-- Two documents that say the same are read as records with fields that say the same. -/
theorem rel_record
    {value value' : Value}
    (h : Document.Respells value value') :
    Option.Rel (List.Forall₂ FieldRespells) (Record.ofValue? Document.fieldNames value)
      (Record.ofValue? Document.fieldNames value') := by
  cases h with
  | object h =>
      rw [Record.ofValue?, Record.ofValue?, repeats_eq _ h]
      split
      · exact .none
      · exact .some h
  | array hlength h =>
      rw [Record.ofValue?, Record.ofValue?, hlength]
      split
      · exact .none
      · exact .some h

theorem rel_get?
    (h : List.Forall₂ FieldRespells fields fields')
    (name : String) :
    Option.Rel (fun value value' => FieldRespells (name, value) (name, value'))
      (Record.get? fields name) (Record.get? fields' name) := by
  rw [Record.get?, Record.get?]
  induction h with
  | nil =>
      exact .none
  | @cons field field' _ _ hfield _ ih =>
      rw [List.find?_cons, List.find?_cons, ← hfield.name_eq]
      by_cases hname : field.1 = name
      · obtain ⟨other, value⟩ := field
        obtain ⟨other', value'⟩ := field'
        obtain rfl : other = other' := hfield.name_eq
        obtain rfl : other = name := hname
        simp only [beq_self_eq_true]
        exact .some hfield
      · simp only [beq_false_of_ne hname]
        exact ih

/-- Fields other than fragments are the same. -/
theorem get?_eq
    {name : String}
    (h : List.Forall₂ FieldRespells fields fields')
    (hname : name ∉ ["specIdl", "customIdl"]) :
    Record.get? fields name = Record.get? fields' name := by
  have hrel := rel_get? h name
  generalize Record.get? fields name = found, Record.get? fields' name = found' at hrel ⊢
  cases hrel with
  | none =>
      rfl
  | some hfield =>
      cases hfield with
      | same =>
          rfl
      | fragments hfragments _ =>
          exact absurd hfragments hname

theorem optional?_eq
    {α : Type} {item : Value → Option α} {default : α} {name : String}
    (h : List.Forall₂ FieldRespells fields fields')
    (hname : name ∉ ["specIdl", "customIdl"]) :
    Record.optional? fields name item default = Record.optional? fields' name item default := by
  rw [Record.optional?, Record.optional?, get?_eq h hname]

/-- Fragments are read as fragments with the same definitions. -/
theorem rel_sources
    (h : List.Forall₂ FieldRespells fields fields')
    (name : String) :
    Option.Rel (SortedMap.Agree Source.Alike)
      (Record.optional? fields name Sources.ofValue? .empty)
      (Record.optional? fields' name Sources.ofValue? .empty) := by
  have hrel := rel_get? h name
  rw [Record.optional?, Record.optional?]
  generalize Record.get? fields name = found, Record.get? fields' name = found' at hrel ⊢
  cases hrel with
  | none =>
      exact .some .nil
  | some hfield =>
      cases hfield with
      | same =>
          have hself : ∀ sources : Sources, SortedMap.Agree Source.Alike sources sources :=
            fun _ => List.forall₂_same.2 fun _ _ => ⟨rfl, fun _ => rfl⟩
          exact rel_refl hself _
      | fragments _ hfragments =>
          exact Sources.rel_ofValue? hfragments

end Records

/-- Two documents differ at most in how their definitions are given. -/
structure Document.Alike (first second : Document) : Prop where
  specIdl : first.specIdl.load = second.specIdl.load
  customIdl : first.customIdl.load = second.customIdl.load
  rest : { first with specIdl := second.specIdl, customIdl := second.customIdl } = second

theorem Document.rel_ofValue?
    {value value' : Value}
    (h : Document.Respells value value') :
    Option.Rel Document.Alike (Document.ofValue? value) (Document.ofValue? value') := by
  rw [Document.ofValue?, Document.ofValue?]
  refine rel_bind (rel_record h) fun record record' hrecord => ?_
  refine rel_bind (rel_sources hrecord "specIdl") fun spec spec' hspec => ?_
  refine rel_bind (rel_sources hrecord "customIdl") fun custom custom' hcustom => ?_
  -- The other fields are read in the same way from the same values.
  have hsame : ∀ {α : Type} (name : String) (item : Value → Option α) (default : α),
      name ∉ ["specIdl", "customIdl"] → Option.Rel Eq (record.optional? name item default)
        (record'.optional? name item default) := by
    intro α name item default hname
    rw [optional?_eq hrecord hname]
    exact rel_refl (fun _ => rfl) _
  refine rel_bind (hsame "specCss" _ _ (by decide)) ?_
  rintro specCss _ rfl
  refine rel_bind (hsame "customCss" _ _ (by decide)) ?_
  rintro customCss _ rfl
  refine rel_bind (hsame "customJs" _ _ (by decide)) ?_
  rintro builtins _ rfl
  refine rel_bind (hsame "customTests" _ _ (by decide)) ?_
  rintro catalog _ rfl
  refine rel_bind (hsame "options" _ _ (by decide)) ?_
  rintro options _ rfl
  exact .some ⟨Sources.load_eq hspec, Sources.load_eq hcustom, rfl⟩

/-- The tests of such documents are the same. -/
theorem Document.table_eq
    {first second : Document}
    (h : Document.Alike first second) :
    first.table = second.table := by
  obtain ⟨hspec, hcustom, hrest⟩ := h
  rw [← hrest]
  rw [Document.table, Document.table, hspec, hcustom]
  rfl

/-- A build from the text of a document does not depend on how definitions are given. -/
theorem ofText_eq
    {text text' : String} {value value' : Value}
    (hread : Json.read? text = some value)
    (hread' : Json.read? text' = some value')
    (h : Document.Respells value value') :
    ofText text = ofText text' := by
  have hrel := Document.rel_ofValue? h
  rw [ofText, ofText, Document.ofText, Document.ofText, hread, hread', Option.bind_some,
    Option.bind_some]
  generalize Document.ofValue? value = found, Document.ofValue? value' = found' at hrel ⊢
  cases hrel with
  | none =>
      rfl
  | some halike =>
      exact congrArg Output.ofReporting (Document.table_eq halike)

/-! ## What is written and what it builds -/

/-- What is written as data is read back, from its text where that is not nested too deep, and two
documents that are read and differ only in definitions given as text or as data build the same. -/
theorem readBack_and_ofText_eq :
    (ReadBack Definition.toValue Definition.ofValue? ∧
      ReadBack Merged.toValue Merged.ofValue? ∧
      ReadBack TestCode.toValue TestCode.ofValue? ∧
      ReadBack RawTest.toValue RawTest.ofValue? ∧
      ReadBack Catalog.Resource.toValue Catalog.Resource.ofValue? ∧
      ReadBack CompiledTest.toValue CompiledTest.ofValue? ∧
      ReadBack Table.toValue Table.ofValue? ∧
      ReadBack (Value.ofList Diagnostic.toValue) (Value.list? Diagnostic.ofValue?)) ∧
    ∀ {text text' : String} {value value' : Value},
      Json.read? text = some value → Json.read? text' = some value' →
      Document.Respells value value' → ofText text = ofText text' := by
  refine ⟨⟨?definition, ?merged, ?code, ?rawTest, ?resource, ?compiled, ?table, ?diagnostics⟩,
    ofText_eq⟩
  case definition =>
    exact Json.readBack_of Definition.ofValue?_toValue Definition.isPrintable_toValue
  case merged =>
    exact Json.readBack_of Merged.ofValue?_toValue Merged.isPrintable_toValue
  case code =>
    exact Json.readBack_of TestCode.ofValue?_toValue TestCode.isPrintable_toValue
  case rawTest =>
    exact Json.readBack_of RawTest.ofValue?_toValue RawTest.isPrintable_toValue
  case resource =>
    exact Json.readBack_of Catalog.Resource.ofValue?_toValue
      Catalog.Resource.isPrintable_toValue
  case compiled =>
    exact Json.readBack_of CompiledTest.ofValue?_toValue CompiledTest.isPrintable_toValue
  case table =>
    exact Json.readBack_of Table.ofValue?_toValue Table.isPrintable_toValue
  case diagnostics =>
    exact Json.readBack_of (Value.list?_ofList Diagnostic.ofValue?_toValue)
      (Value.isPrintable_ofList Diagnostic.isPrintable_toValue)

/-! ## Documents with one fragment -/

/-- A document with one fragment. -/
def single (fragment : Value) : Value :=
  .object [("specIdl", .object [("base", fragment)])]

/-- The text of such a document is read back unless its fragment is nested too deep. -/
theorem read?_single
    {fragment : Value}
    (h : fragment.IsPrintable) :
    Json.read? (single fragment).toText =
      if fragment.depth + 2 ≤ Json.maxDepth then some (single fragment) else none := by
  have hprintable : (single fragment).IsPrintable :=
    .object (List.forall_mem_singleton.2 (.object (List.forall_mem_singleton.2 h)))
  have hdepth : (single fragment).depth = fragment.depth + 2 := by
    simp [single, Value.depth, Value.depthOfMembers]
  rw [Json.read?_toText hprintable, hdepth]

theorem respells_single
    {idl : String} {read : List Definition}
    (h : WebIdl.parse idl.toList = .ok read) :
    Document.Respells (single (.string idl)) (single (.ofList Definition.toValue read)) :=
  .object (.cons (.fragments (by decide) (.cons ⟨rfl, .definitions h⟩ .nil)) .nil)

/-- A text whose definitions pass a check has definitions. -/
theorem exists_parse_of
    {idl : String}
    (check : List Definition → Bool)
    (h : (WebIdl.parse idl.toList).toOption.any check = true) :
    ∃ read, WebIdl.parse idl.toList = .ok read ∧ check read = true := by
  rw [Option.any_eq_true] at h
  obtain ⟨read, hread, hcheck⟩ := h
  generalize WebIdl.parse idl.toList = parsed at hread ⊢
  cases parsed with
  | error _ =>
      cases hread
  | ok found =>
      cases hread
      exact ⟨read, rfl, hcheck⟩

/-- An interface can be given as text or as data. -/
theorem ofText_interface :
    ∃ read, WebIdl.parse "[Exposed=*] interface Tree { attribute Tree? top; };".toList = .ok read ∧
      ofText (single (.string "[Exposed=*] interface Tree { attribute Tree? top; };")).toText =
        ofText (single (.ofList Definition.toValue read)).toText := by
  obtain ⟨read, hparse, hdepth⟩ := exists_parse_of
    (fun read => decide ((Value.ofList Definition.toValue read).depth + 2 ≤ Json.maxDepth))
    (by decide +kernel :
      (WebIdl.parse "[Exposed=*] interface Tree { attribute Tree? top; };".toList).toOption.any _ =
        true)
  refine ⟨read, hparse, readBack_and_ofText_eq.2 ?text ?data (respells_single hparse)⟩
  case text =>
    exact (read?_single (.string _)).trans (if_pos (by decide))
  case data =>
    have hprintable := Value.isPrintable_ofList Definition.isPrintable_toValue read
    exact (read?_single hprintable).trans (if_pos (of_decide_eq_true hdepth))

/-- A type in so many parentheses that its definition is nested too deep as data. -/
def tower : String :=
  "typedef (((((((((((((((((((((((((((((((((((((((((((((((((((((((((((((((long" ++
    "))))))))))))))))))))))))))))))))))))))))))))))))))))))))))))))) T;"

/-- Whether one definition is nested too deep to be read and builds if it is read. -/
def isTooDeep : List Definition → Bool
  | [definition] =>
      decide (Json.maxDepth < definition.toValue.depth) &&
        (Document.ofValue? (single (.ofList Definition.toValue [definition]))).any
          fun document => (Output.ofReporting document.table).isOk
  | _ => false

/-- The tower is built as text.  As data it is read back neither alone nor in a document. -/
theorem ofText_tower_ne :
    ∃ definition, WebIdl.parse tower.toList = .ok [definition] ∧
      (Json.read? definition.toValue.toText).bind Definition.ofValue? = none ∧
      ofText (single (.string tower)).toText ≠
        ofText (single (.ofList Definition.toValue [definition])).toText := by
  obtain ⟨read, hparse, hcheck⟩ := exists_parse_of isTooDeep
    (by decide +kernel : (WebIdl.parse tower.toList).toOption.any isTooDeep = true)
  obtain ⟨definition, rfl⟩ : ∃ definition, read = [definition] := by
    match read, hcheck with
    | [definition], _ =>
        exact ⟨definition, rfl⟩
  rw [isTooDeep, Bool.and_eq_true, decide_eq_true_eq, Option.any_eq_true] at hcheck
  obtain ⟨hdepth, document', hread', hok⟩ := hcheck
  refine ⟨definition, hparse, ?alone, fun heq => ?inDocument⟩
  case alone =>
    rw [Json.read?_toText definition.isPrintable_toValue, if_neg (Nat.not_le.2 hdepth)]
    rfl
  case inDocument =>
    -- Both documents would build the same if the second one were read.
    have htext : ofText (single (.string tower)).toText = Output.ofReporting document'.table := by
      have hrel := Document.rel_ofValue? (respells_single hparse)
      rw [hread'] at hrel
      rw [ofText, Document.ofText, read?_single (.string _), if_pos (by decide), Option.bind_some]
      generalize Document.ofValue? (single (.string tower)) = found at hrel ⊢
      cases hrel with
      | some halike =>
          exact congrArg Output.ofReporting (Document.table_eq halike)
    have hdata : ofText (single (.ofList Definition.toValue [definition])).toText =
        .error .invalidDocument := by
      have hdeeper :
          ¬(Value.ofList Definition.toValue [definition]).depth + 2 ≤ Json.maxDepth := by
        have hle : definition.toValue.depth ≤
            (Value.ofList Definition.toValue [definition]).depth := by
          simp [Value.ofList, Value.depth, Value.depthOfItems]
        omega
      have hprintable := Value.isPrintable_ofList Definition.isPrintable_toValue [definition]
      rw [ofText, Document.ofText, read?_single hprintable, if_neg hdeeper]
      rfl
    rw [← htext, heq, hdata] at hok
    cases hok

end Build
end FeatureProbes
