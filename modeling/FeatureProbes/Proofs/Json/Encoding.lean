import FeatureProbes.Proofs.Json.Text
import FeatureProbes.Proofs.Json.Values

/-!
# Writing and reading back

What is written as a value of a data document is read back from the value, and from the text of the
value where it is not nested too deep for the reader.  Each way to put values together keeps this.
-/

namespace FeatureProbes
namespace Json

/-- What is written is read back, from the value always and from its text where the reader may go as
deep as the value is nested. -/
structure ReadBack {α : Type} (encode : α → Value) (decode : Value → Option α) : Prop where
  value : ∀ a, decode (encode a) = some a
  text : ∀ a, (read? (encode a).toText).bind decode =
    if (encode a).depth ≤ maxDepth then some a else none

theorem readBack_of
    {α : Type} {encode : α → Value} {decode : Value → Option α}
    (hvalue : ∀ a, decode (encode a) = some a)
    (hprintable : ∀ a, (encode a).IsPrintable) :
    ReadBack encode decode := by
  refine ⟨hvalue, fun a => ?_⟩
  rw [read?_toText (hprintable a)]
  split
  · exact hvalue a
  · rfl

namespace Value

variable {α : Type} {encode : α → Value} {decode : Value → Option α}

/-! ## Reading back -/

theorem list?_map
    {items : List α}
    (h : ∀ item ∈ items, decode (encode item) = some item) :
    (array (items.map encode)).list? decode = some items := by
  rw [list?, mapM_eq_some_iff, List.forall₂_map_left_iff, List.forall₂_same]
  exact h

theorem list?_ofList
    (h : ∀ item, decode (encode item) = some item)
    (items : List α) :
    (ofList encode items).list? decode = some items :=
  list?_map fun item _ => h item

@[simp] theorem strings?_ofStrings
    (texts : List String) :
    (ofStrings texts).strings? = some texts :=
  strings?_eq_some_iff.2 rfl

theorem map?_ofMap
    (h : ∀ item, decode (encode item) = some item)
    (map : SortedMap α) :
    (ofMap encode map).map? decode = some map := by
  have hentries : (map.entries.map fun entry => (entry.1, encode entry.2)).mapM
      (fun member => do return (member.1, ← decode member.2)) = some map.entries := by
    rw [mapM_eq_some_iff, List.forall₂_map_left_iff, List.forall₂_same]
    intro entry _
    rw [h]
    rfl
  rw [ofMap, map?, hentries]
  exact congrArg some (SortedMap.ofList_entries map)

/-- Null is left for what is not there. -/
theorem nullable?_ofOption
    (h : ∀ item, decode (encode item) = some item)
    (hnull : ∀ item, encode item ≠ null)
    (item : Option α) :
    nullable? decode (ofOption encode item) = some item := by
  cases item with
  | none =>
      rfl
  | some item =>
      rw [ofOption, nullable?, h]
      · rfl
      · exact hnull item

@[simp] theorem nullable?_ofString?
    (text : Option String) :
    nullable? string? (ofString? text) = some text :=
  nullable?_ofOption (fun given => (rfl : (string given).string? = some given)) nofun text

@[simp] theorem uint32?_ofUInt32
    (n : UInt32) :
    (ofUInt32 n).uint32? = some n := by
  have hlt : (n.toNat : Int) < 4294967296 := by
    have := n.toNat_lt
    omega
  rw [ofUInt32, uint32?, if_pos ⟨Int.natCast_nonneg _, hlt⟩]
  simp

/-! ## Printing -/

theorem isPrintable_ofList
    (h : ∀ item, (encode item).IsPrintable)
    (items : List α) :
    (ofList encode items).IsPrintable :=
  .array (List.forall_mem_map.2 fun item _ => h item)

theorem isPrintable_ofStrings
    (texts : List String) :
    (ofStrings texts).IsPrintable :=
  isPrintable_ofList .string texts

theorem isPrintable_ofMap
    (h : ∀ item, (encode item).IsPrintable)
    (map : SortedMap α) :
    (ofMap encode map).IsPrintable :=
  .object (List.forall_mem_map.2 fun entry _ => h entry.2)

theorem isPrintable_ofOption
    (h : ∀ item, (encode item).IsPrintable)
    (item : Option α) :
    (ofOption encode item).IsPrintable := by
  cases item with
  | none =>
      exact .null
  | some item =>
      exact h item

theorem isPrintable_ofString?
    (text : Option String) :
    (ofString? text).IsPrintable :=
  isPrintable_ofOption .string text

theorem isPrintable_ofUInt32
    (n : UInt32) :
    (ofUInt32 n).IsPrintable := by
  have hlt := n.toNat_lt
  exact .integer (Int.natCast_nonneg _) (by omega)

theorem isPrintable_choice
    {value : Value}
    (name : String)
    (h : value.IsPrintable) :
    (choice name value).IsPrintable :=
  .object (List.forall_mem_singleton.2 h)

/-! ## Depth -/

theorem depth_choice
    (name : String)
    (value : Value) :
    (choice name value).depth = value.depth + 1 := by
  simp [choice, depth, depthOfMembers]

theorem depth_le_depthOfItems
    {item : Value} {items : List Value}
    (h : item ∈ items) :
    item.depth ≤ depthOfItems items := by
  induction items with
  | nil =>
      cases h
  | cons first more ih =>
      rw [depthOfItems]
      rcases List.mem_cons.1 h with rfl | h
      · exact Nat.le_max_left _ _
      · exact Nat.le_trans (ih h) (Nat.le_max_right _ _)

end Value
end Json
end FeatureProbes
