import FeatureProbes.SortedMap
import Mathlib.Data.List.Forall2
import Mathlib.Data.List.Nodup
import Mathlib.Data.Option.Defs

/-!
# Entries of sorted maps

A map that is made of a list of entries has no entries but these.  Inserting changes the look-up of
one key only.  Where related entries are inserted into maps with related values, the values stay
related.
-/

namespace FeatureProbes
namespace SortedMap

universe u v

variable {α : Type u}

theorem mem_entries_insertAll
    {map : SortedMap α} {entry : String × α} {entries : List (String × α)}
    (h : entry ∈ (map.insertAll entries).entries) :
    entry ∈ map.entries ∨ entry ∈ entries := by
  induction entries generalizing map with
  | nil =>
      exact Or.inl h
  | cons head rest ih =>
      rcases ih h with h | h
      · rcases mem_insertEntry h with h | h
        · exact Or.inr (h ▸ List.mem_cons_self)
        · exact Or.inl h
      · exact Or.inr (List.mem_cons_of_mem _ h)

/-- The entries of the map of a list are in the list. -/
theorem mem_of_mem_entries_ofList
    {entry : String × α} {entries : List (String × α)}
    (h : entry ∈ (ofList entries).entries) :
    entry ∈ entries := by
  rcases mem_entries_insertAll h with h | h
  · exact absurd h List.not_mem_nil
  · exact h

theorem find?_insertEntry
    (key : String)
    (value : α)
    (entries : List (String × α))
    (other : String) :
    ((insertEntry key value entries).find? fun entry => entry.1 = other) =
      if other = key then some (key, value)
      else entries.find? fun entry => entry.1 = other := by
  induction entries with
  | nil =>
      by_cases h : other = key
      · simp [insertEntry, h]
      · simp [insertEntry, h, Ne.symm h]
  | cons head rest ih =>
      rw [insertEntry]
      by_cases h : other = key
      · subst h
        split
        · simp
        · split
          · simp
          · rename_i hne
            simp [Ne.symm hne, ih]
      · split
        · simp [Ne.symm h]
        · split
          · rename_i heq
            subst heq
            simp [Ne.symm h]
          · by_cases hhead : head.1 = other
            · simp [hhead]
            · simp [hhead, ih, h]

@[simp] theorem get?_empty
    (key : String) :
    (empty : SortedMap α).get? key = none := by
  rfl

theorem get?_insert
    (map : SortedMap α)
    (key : String)
    (value : α)
    (other : String) :
    (map.insert key value).get? other = if other = key then some value else map.get? other := by
  rw [get?, insert, find?_insertEntry]
  split
  · rfl
  · rfl

theorem get?_insertAll_of_not_mem
    {map : SortedMap α} {key : String} {entries : List (String × α)}
    (h : key ∉ entries.map Prod.fst) :
    (map.insertAll entries).get? key = map.get? key := by
  induction entries generalizing map with
  | nil =>
      rfl
  | cons head rest ih =>
      rw [List.map_cons, List.mem_cons, not_or] at h
      have hstep : map.insertAll (head :: rest) = (map.insert head.1 head.2).insertAll rest := rfl
      rw [hstep, ih h.2, get?_insert, if_neg h.1]

/-- Of the entries with some key the last one stays. -/
theorem get?_ofList_append_cons
    {key : String} {value : α} {entries rest : List (String × α)}
    (h : key ∉ rest.map Prod.fst) :
    (ofList (entries ++ (key, value) :: rest)).get? key = some value := by
  have hstep : ofList (entries ++ (key, value) :: rest) =
      ((ofList entries).insert key value).insertAll rest := by
    rw [ofList, insertAll, List.foldl_append]
    rfl
  rw [hstep, get?_insertAll_of_not_mem h, get?_insert, if_pos rfl]

/-- Of the entries with some key the last one is looked up. -/
theorem get?_insertAll
    (map : SortedMap α)
    (entries : List (String × α))
    (key : String) :
    (map.insertAll entries).get? key =
      ((entries.reverse.find? fun entry => entry.1 = key).map Prod.snd).or (map.get? key) := by
  induction entries generalizing map with
  | nil =>
      rfl
  | cons head rest ih =>
      have hstep : map.insertAll (head :: rest) = (map.insert head.1 head.2).insertAll rest := rfl
      rw [hstep, ih, get?_insert, List.reverse_cons, List.find?_append]
      cases hfound : rest.reverse.find? fun entry => entry.1 = key with
      | some entry =>
          rfl
      | none =>
          by_cases hkey : key = head.1
          · simp [hkey]
          · simp [hkey, Ne.symm hkey]

theorem get?_ofList
    (entries : List (String × α))
    (key : String) :
    (ofList entries).get? key =
      (entries.reverse.find? fun entry => entry.1 = key).map Prod.snd := by
  rw [ofList, get?_insertAll, get?_empty, Option.or_none]

/-- A key above all others goes to the end. -/
theorem insertEntry_of_forall_lt
    {key : String} {entries : List (String × α)}
    (value : α)
    (h : ∀ entry ∈ entries, entry.1 < key) :
    insertEntry key value entries = entries ++ [(key, value)] := by
  induction entries with
  | nil =>
      rfl
  | cons head rest ih =>
      have hhead := h head List.mem_cons_self
      have hrest := ih fun entry hentry => h entry (List.mem_cons_of_mem _ hentry)
      have hnot : ¬key < head.1 := fun hlt => String.lt_irrefl _ (String.lt_trans hhead hlt)
      have hne : key ≠ head.1 := (String.ne_of_lt hhead).symm
      rw [insertEntry, if_neg hnot, if_neg hne, hrest, List.cons_append]

theorem entries_insertAll
    {map : SortedMap α} {entries : List (String × α)}
    (h : (map.entries ++ entries).Pairwise fun a b => a.1 < b.1) :
    (map.insertAll entries).entries = map.entries ++ entries := by
  induction entries generalizing map with
  | nil =>
      rw [List.append_nil]
      rfl
  | cons head rest ih =>
      have hlast : (map.insert head.1 head.2).entries = map.entries ++ [head] :=
        insertEntry_of_forall_lt head.2 fun entry hentry =>
          (List.pairwise_append.1 h).2.2 entry hentry head List.mem_cons_self
      have hsplit : map.entries ++ head :: rest = (map.insert head.1 head.2).entries ++ rest := by
        rw [hlast, List.append_assoc, List.singleton_append]
      rw [hsplit] at h ⊢
      exact ih h

/-- A map is the map of its entries. -/
@[simp] theorem ofList_entries
    (map : SortedMap α) :
    ofList map.entries = map := by
  have hentries : (empty.insertAll map.entries).entries = map.entries :=
    entries_insertAll map.ascending
  cases map
  rw [ofList]
  cases hall : empty.insertAll _
  rw [hall] at hentries
  simpa using hentries

theorem mem_keys_iff
    {map : SortedMap α} {key : String} :
    key ∈ map.keys ↔ (map.get? key).isSome := by
  rw [keys, get?, Option.isSome_map, List.find?_isSome, List.mem_map]
  simp

/-! ## Keys -/

theorem keys_ascending
    (map : SortedMap α) :
    map.keys.Pairwise (· < ·) := by
  rw [keys, List.pairwise_map]
  exact map.ascending

/-- The first key of some kind is the least one. -/
theorem find?_keys_eq_some_iff
    {map : SortedMap α} {p : String → Bool} {key : String} :
    map.keys.find? p = some key ↔
      key ∈ map.keys ∧ p key ∧ ∀ other ∈ map.keys, p other → key ≤ other := by
  have hleast : ∀ {found}, map.keys.find? p = some found →
      ∀ other ∈ map.keys, p other → found ≤ other := by
    intro found hfound other hother hp
    obtain ⟨-, before, after, hkeys, hbefore⟩ := List.find?_eq_some_iff_append.1 hfound
    have hascending := map.keys_ascending
    rw [hkeys] at hother hascending
    rcases List.mem_append.1 hother with hother | hother
    · simpa [hp] using hbefore other hother
    · rcases List.mem_cons.1 hother with rfl | hother
      · exact String.le_refl _
      · have hafter := (List.pairwise_append.1 hascending).2.1
        have hlt := (List.pairwise_cons.1 hafter).1 other hother
        exact String.not_lt.1 fun hgt => String.lt_irrefl _ (String.lt_trans hlt hgt)
  constructor
  · intro h
    exact ⟨List.mem_of_find?_eq_some h, List.find?_some h, hleast h⟩
  · rintro ⟨hmem, hp, hle⟩
    have hsome : (map.keys.find? p).isSome := List.find?_isSome.2 ⟨key, hmem, hp⟩
    obtain ⟨found, hfound⟩ := Option.isSome_iff_exists.1 hsome
    have hfirst := hle found (List.mem_of_find?_eq_some hfound) (List.find?_some hfound)
    rw [hfound, String.le_antisymm (hleast hfound key hmem hp) hfirst]

/-- A map has one value at each of its keys. -/
theorem get?_eq_some_iff
    {map : SortedMap α} {key : String} {value : α} :
    map.get? key = some value ↔ (key, value) ∈ map.entries := by
  have hentry : ∀ {found}, map.get? key = some found → (key, found) ∈ map.entries := by
    intro found hfound
    obtain ⟨⟨other, _⟩, hfind, rfl⟩ := Option.map_eq_some_iff.1 hfound
    obtain rfl : other = key := by
      simpa using List.find?_some hfind
    exact List.mem_of_find?_eq_some hfind
  refine ⟨hentry, fun hmem => ?_⟩
  obtain ⟨found, hfound⟩ := Option.isSome_iff_exists.1
    (mem_keys_iff.1 (List.mem_map_of_mem hmem : key ∈ map.keys))
  have hdistinct : (map.entries.map Prod.fst).Nodup := map.keys_ascending.imp String.ne_of_lt
  cases List.inj_on_of_nodup_map hdistinct hmem (hentry hfound) rfl
  exact hfound

/-- The entries of a map with some key are the one at which the key is looked up. -/
theorem filter_entries_eq
    (map : SortedMap α)
    (key : String) :
    (map.entries.filter fun entry => entry.1 = key) =
      (map.get? key).toList.map fun value => (key, value) := by
  obtain ⟨entries, ascending⟩ := map
  rw [get?]
  induction entries with
  | nil =>
      rfl
  | cons head rest ih =>
      obtain ⟨hhead, hrest⟩ := List.pairwise_cons.1 ascending
      rw [List.filter_cons, List.find?_cons]
      by_cases hkey : head.1 = key
      · have hnone : (rest.filter fun entry => entry.1 = key) = [] := by
          refine List.filter_eq_nil_iff.2 fun entry hentry => ?_
          simpa [← hkey] using (String.ne_of_lt (hhead entry hentry)).symm
        simp only [hkey, hnone, decide_true, if_true, Option.map_some, Option.toList_some,
          List.map_cons, List.map_nil]
        rw [← hkey]
      · simpa [hkey] using ih hrest

theorem contains_iff
    {map : SortedMap α} {key : String} :
    map.contains key ↔ key ∈ map.keys := by
  rw [contains, keys, List.any_eq_true, List.mem_map]
  simp

/-- The entries of a map are those of a larger one that have one of its keys. -/
theorem entries_eq_filter
    {first second : SortedMap α}
    (h : ∀ key value, first.get? key = some value → second.get? key = some value) :
    first.entries = second.entries.filter fun entry => first.contains entry.1 := by
  have hascending := second.ascending.filter fun entry => first.contains entry.1
  have hnodup : ∀ {entries : List (String × α)},
      entries.Pairwise (fun a b => a.1 < b.1) → entries.Nodup := by
    intro entries hentries
    refine hentries.imp ?_
    rintro a _ hlt rfl
    exact String.lt_irrefl _ hlt
  refine List.Perm.eq_of_pairwise ?_ first.ascending hascending ?_
  · intro a b _ _ hab hba
    exact absurd (String.lt_trans hab hba) (String.lt_irrefl _)
  · rw [List.perm_ext_iff_of_nodup (hnodup first.ascending) (hnodup hascending)]
    rintro ⟨key, value⟩
    rw [List.mem_filter, ← get?_eq_some_iff, ← get?_eq_some_iff, contains_iff, mem_keys_iff]
    constructor
    · intro hfirst
      exact ⟨h key value hfirst, Option.isSome_of_eq_some hfirst⟩
    · rintro ⟨hsecond, hkey⟩
      obtain ⟨found, hfound⟩ := Option.isSome_iff_exists.1 hkey
      rw [hfound, ← h key found hfound, hsecond]

/-- A map is known by its look-ups. -/
theorem ext_get?
    {first second : SortedMap α}
    (h : ∀ key, first.get? key = second.get? key) :
    first = second := by
  have hentries := entries_eq_filter fun key value hfirst => (h key).symm.trans hfirst
  have hall : ∀ entry ∈ second.entries, first.contains entry.1 = true := by
    intro entry hentry
    rw [contains_iff, mem_keys_iff, h, get?_eq_some_iff.2 hentry]
    rfl
  cases first
  cases second
  rwa [List.filter_eq_self.2 hall, ← mk.injEq] at hentries

theorem get?_mapValues
    {β : Type v}
    (f : α → β)
    (map : SortedMap α)
    (key : String) :
    (map.mapValues f).get? key = (map.get? key).map f := by
  rw [get?, get?, mapValues, List.find?_map, Option.map_map, Option.map_map]
  rfl

@[simp] theorem not_mem_keys_empty
    {key : String} :
    key ∉ (empty : SortedMap α).keys :=
  List.not_mem_nil

theorem mem_keys_insertAll_iff
    {map : SortedMap α} {entries : List (String × α)} {key : String} :
    key ∈ (map.insertAll entries).keys ↔ key ∈ map.keys ∨ key ∈ entries.map Prod.fst := by
  induction entries generalizing map with
  | nil =>
      simp [insertAll]
  | cons head rest ih =>
      have hstep : map.insertAll (head :: rest) = (map.insert head.1 head.2).insertAll rest := rfl
      have hhead : key ∈ (map.insert head.1 head.2).keys ↔ key = head.1 ∨ key ∈ map.keys := by
        rw [mem_keys_iff, mem_keys_iff, get?_insert]
        split
        · rename_i heq
          simp [heq]
        · rename_i hne
          simp [hne]
      rw [hstep, ih, hhead, List.map_cons, List.mem_cons, or_assoc, or_left_comm]

theorem mem_keys_ofList_iff
    {entries : List (String × α)} {key : String} :
    key ∈ (ofList entries).keys ↔ key ∈ entries.map Prod.fst := by
  rw [ofList, mem_keys_insertAll_iff]
  simp

theorem mem_keys_union_iff
    {first second : SortedMap α} {key : String} :
    key ∈ (first.union second).keys ↔ key ∈ first.keys ∨ key ∈ second.keys :=
  mem_keys_insertAll_iff

/-- Where both maps have a key, the second map's value stays. -/
theorem get?_union
    (first second : SortedMap α)
    (key : String) :
    (first.union second).get? key = (second.get? key).or (first.get? key) := by
  rw [union, get?_insertAll, ← get?_ofList, ofList_entries]

/-- Where entries are made from those of a map, a key is looked up there first. -/
theorem get?_insertAll_map_entries
    {β : Type v}
    (f : String → α → β)
    (first : SortedMap β)
    (second : SortedMap α)
    (key : String) :
    (first.insertAll (second.entries.map fun entry => (entry.1, f entry.1 entry.2))).get? key =
      ((second.get? key).map (f key)).or (first.get? key) := by
  let made : SortedMap β :=
    ⟨second.entries.map fun entry => (entry.1, f entry.1 entry.2),
      List.pairwise_map.2 second.ascending⟩
  have hmade : made.get? key = (second.get? key).map (f key) := by
    rw [get?, get?, List.find?_map, Option.map_map, Option.map_map]
    refine Option.map_congr fun entry hentry => ?_
    have hkey : entry.1 = key := by
      simpa using List.find?_some hentry
    simp [hkey]
  have hunion := get?_union first made key
  rwa [hmade] at hunion

/-- Each entry of two maps together is from one of them. -/
theorem get?_union_eq_some
    {first second : SortedMap α} {key : String} {value : α}
    (h : (first.union second).get? key = some value) :
    first.get? key = some value ∨ second.get? key = some value := by
  rw [get?_eq_some_iff, get?_eq_some_iff]
  exact mem_entries_insertAll (get?_eq_some_iff.1 h)

/-- The keys of several maps together are those of each of them. -/
theorem mem_keys_foldl_union_iff
    {first : SortedMap α} {maps : List (SortedMap α)} {key : String} :
    key ∈ (maps.foldl union first).keys ↔ key ∈ first.keys ∨ ∃ map ∈ maps, key ∈ map.keys := by
  induction maps generalizing first with
  | nil =>
      simp
  | cons map maps ih =>
      rw [List.foldl_cons, ih, mem_keys_union_iff, or_assoc]
      simp

/-! ## Pairs of maps -/

/-- Two entries have the same key and related values. -/
def EntryAgree
    (R : String → α → α → Prop)
    (first second : String × α) : Prop :=
  first.1 = second.1 ∧ R first.1 first.2 second.2

/-- Two maps have the same keys, and their values at each key are related. -/
def Agree
    (R : String → α → α → Prop)
    (first second : SortedMap α) : Prop :=
  List.Forall₂ (EntryAgree R) first.entries second.entries

section Agree

variable {R : String → α → α → Prop}

theorem Agree.keys_eq
    {first second : SortedMap α}
    (h : Agree R first second) :
    first.keys = second.keys := by
  rw [keys, keys, ← List.forall₂_eq_eq_eq, List.forall₂_map_left_iff, List.forall₂_map_right_iff]
  exact List.Forall₂.imp (fun _ _ hentry => hentry.1) h

/-- Of entries that agree one by one, the first ones with some key agree. -/
theorem rel_find?
    {key : String} {entries entries' : List (String × α)}
    (h : List.Forall₂ (EntryAgree R) entries entries') :
    Option.Rel (R key) ((entries.find? fun entry => entry.1 = key).map Prod.snd)
      ((entries'.find? fun entry => entry.1 = key).map Prod.snd) := by
  induction h with
  | nil =>
      exact .none
  | @cons entry entry' rest rest' hentry hrest ih =>
      obtain ⟨hkey, hvalue⟩ := hentry
      rw [List.find?_cons, List.find?_cons, ← hkey]
      by_cases heq : entry.1 = key
      · simp only [heq, decide_true]
        exact .some (heq ▸ hvalue)
      · simp only [heq, decide_false]
        exact ih

theorem Agree.get?
    {first second : SortedMap α}
    (h : Agree R first second)
    (key : String) :
    Option.Rel (R key) (first.get? key) (second.get? key) :=
  rel_find? h

theorem forall₂_insertEntry
    {key : String} {value value' : α} {entries entries' : List (String × α)}
    (hvalue : R key value value')
    (h : List.Forall₂ (EntryAgree R) entries entries') :
    List.Forall₂ (EntryAgree R) (insertEntry key value entries)
      (insertEntry key value' entries') := by
  induction h with
  | nil =>
      exact .cons ⟨rfl, hvalue⟩ .nil
  | cons hentry hrest ih =>
      rw [insertEntry, insertEntry, ← hentry.1]
      split
      · exact .cons ⟨rfl, hvalue⟩ (.cons hentry hrest)
      · split
        · exact .cons ⟨rfl, hvalue⟩ hrest
        · exact .cons hentry ih

theorem Agree.insert
    {first second : SortedMap α} {key : String} {value value' : α}
    (h : Agree R first second)
    (hvalue : R key value value') :
    Agree R (first.insert key value) (second.insert key value') :=
  forall₂_insertEntry hvalue h

/-- Maps that are made of entries which agree one by one agree. -/
theorem agree_ofList
    {entries entries' : List (String × α)}
    (h : List.Forall₂ (EntryAgree R) entries entries') :
    Agree R (ofList entries) (ofList entries') := by
  have hall : ∀ first second : SortedMap α, Agree R first second →
      Agree R (first.insertAll entries) (second.insertAll entries') := by
    induction h with
    | nil =>
        exact fun _ _ hmaps => hmaps
    | cons hentry _ ih =>
        intro first second hmaps
        have hstep := hmaps.insert hentry.2
        rw [insertAll, insertAll, List.foldl_cons, List.foldl_cons, ← hentry.1]
        exact ih _ _ hstep
  exact hall empty empty .nil

end Agree

end SortedMap

/-! ## Sets of names -/

namespace NameSet

variable {first second : NameSet} {names : List String} {name : String}

theorem mem_keys_ofNames_iff :
    name ∈ (ofNames names).keys ↔ name ∈ names := by
  rw [ofNames, SortedMap.mem_keys_ofList_iff, List.map_map]
  simp

/-- A set is known by its members. -/
theorem ext_keys
    (h : ∀ name, name ∈ first.keys ↔ name ∈ second.keys) :
    first = second := by
  refine SortedMap.ext_get? fun name => ?_
  have hname := h name
  rw [SortedMap.mem_keys_iff, SortedMap.mem_keys_iff] at hname
  cases hfirst : first.get? name <;> cases hsecond : second.get? name <;>
    simp_all

theorem mem_keys_inter_iff :
    name ∈ (first.inter second).keys ↔ name ∈ first.keys ∧ name ∈ second.keys := by
  have hsecond : second.contains name ↔ name ∈ second.keys := SortedMap.contains_iff
  rw [← hsecond]
  simp [SortedMap.keys, inter]

end NameSet
end FeatureProbes
