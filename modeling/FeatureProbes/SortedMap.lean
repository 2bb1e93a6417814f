/-!
# Sorted maps

A finite map from text keys to values, kept as the list of its entries in ascending key order.
The order is part of the type, so two maps with the same look-ups are equal, and listing a map
always gives the same result whatever the order of its insertions was.

Names without values form a map to the unit type.
-/

namespace FeatureProbes

universe u v

/-- Entries in strictly ascending key order. -/
structure SortedMap (α : Type u) where
  /-- The entries, in ascending key order. -/
  entries : List (String × α)
  /-- No key occurs twice, and every key is above the keys before it. -/
  ascending : entries.Pairwise fun a b => a.1 < b.1

namespace SortedMap

variable {α : Type u} {β : Type v}

/-- Insert into an ascending list of entries; an entry with the same key is replaced. -/
def insertEntry (key : String) (value : α) : List (String × α) → List (String × α)
  | [] => [(key, value)]
  | entry :: rest =>
      if key < entry.1 then (key, value) :: entry :: rest
      else if key = entry.1 then (key, value) :: rest
      else entry :: insertEntry key value rest

theorem mem_insertEntry
    {key : String} {value : α} {entry : String × α} {entries : List (String × α)}
    (h : entry ∈ insertEntry key value entries) :
    entry = (key, value) ∨ entry ∈ entries := by
  induction entries with
  | nil =>
      simpa [insertEntry] using h
  | cons head rest ih =>
      rw [insertEntry] at h
      split at h
      · simpa using h
      · split at h
        · rcases List.mem_cons.1 h with h | h
          · exact Or.inl h
          · exact Or.inr (List.mem_cons_of_mem _ h)
        · rcases List.mem_cons.1 h with h | h
          · exact Or.inr (h ▸ List.mem_cons_self)
          · rcases ih h with h | h
            · exact Or.inl h
            · exact Or.inr (List.mem_cons_of_mem _ h)

/-- Of two different keys that are not in ascending order, the second is below the first. -/
theorem lt_of_not_lt_of_ne
    {a b : String}
    (hlt : ¬a < b)
    (hne : a ≠ b) :
    b < a := by
  by_cases h : b < a
  · exact h
  · exact absurd (String.le_antisymm (String.not_lt.1 h) (String.not_lt.1 hlt)) hne

theorem ascending_insertEntry
    (key : String) (value : α) {entries : List (String × α)}
    (h : entries.Pairwise fun a b => a.1 < b.1) :
    (insertEntry key value entries).Pairwise fun a b => a.1 < b.1 := by
  induction entries with
  | nil =>
      simp [insertEntry]
  | cons head rest ih =>
      obtain ⟨hhead, hrest⟩ := List.pairwise_cons.1 h
      rw [insertEntry]
      split
      · rename_i hlt
        refine List.pairwise_cons.2 ⟨?_, h⟩
        intro entry hmem
        rcases List.mem_cons.1 hmem with hmem | hmem
        · exact hmem ▸ hlt
        · exact String.lt_trans hlt (hhead entry hmem)
      · split
        · rename_i heq
          refine List.pairwise_cons.2 ⟨?_, hrest⟩
          intro entry hmem
          exact heq ▸ hhead entry hmem
        · rename_i hlt hne
          refine List.pairwise_cons.2 ⟨?_, ih hrest⟩
          intro entry hmem
          rcases mem_insertEntry hmem with hmem | hmem
          · exact hmem ▸ lt_of_not_lt_of_ne hlt hne
          · exact hhead entry hmem

/-- The map without entries. -/
def empty : SortedMap α where
  entries := []
  ascending := List.Pairwise.nil

instance : EmptyCollection (SortedMap α) := ⟨empty⟩

instance : Inhabited (SortedMap α) := ⟨empty⟩

/-- The value at a key. -/
def get? (map : SortedMap α) (key : String) : Option α :=
  (map.entries.find? fun entry => entry.1 = key).map Prod.snd

/-- Whether a key has a value. -/
def contains (map : SortedMap α) (key : String) : Bool :=
  map.entries.any fun entry => entry.1 = key

/-- The map with a value at a key, in place of the one before. -/
def insert (map : SortedMap α) (key : String) (value : α) : SortedMap α where
  entries := insertEntry key value map.entries
  ascending := ascending_insertEntry key value map.ascending

/-- The keys, in ascending order. -/
def keys (map : SortedMap α) : List String :=
  map.entries.map Prod.fst

/-- Whether there are no entries. -/
def isEmpty (map : SortedMap α) : Bool :=
  map.entries.isEmpty

/-- Insert entries one after the other; of entries with the same key the last one stays. -/
def insertAll (map : SortedMap α) (entries : List (String × α)) : SortedMap α :=
  entries.foldl (fun map entry => map.insert entry.1 entry.2) map

/-- The map of a list of entries; of entries with the same key the last one stays. -/
def ofList (entries : List (String × α)) : SortedMap α :=
  empty.insertAll entries

/-- All entries of both maps; where both have a key, the second map's value stays. -/
def union (first second : SortedMap α) : SortedMap α :=
  first.insertAll second.entries

/-- Change the values and keep the keys. -/
def mapValues (f : α → β) (map : SortedMap α) : SortedMap β where
  entries := map.entries.map fun entry => (entry.1, f entry.2)
  ascending := List.pairwise_map.2 map.ascending

end SortedMap

/-- Sets of names, as maps that say nothing more about them. -/
abbrev NameSet := SortedMap Unit

namespace NameSet

/-- The set of the names of a list. -/
def ofNames (names : List String) : NameSet :=
  SortedMap.ofList (names.map fun name => (name, ()))

/-- The members of both sets. -/
def inter (first second : NameSet) : NameSet where
  entries := first.entries.filter fun entry => second.contains entry.1
  ascending := first.ascending.filter _

end NameSet
end FeatureProbes
