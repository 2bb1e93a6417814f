import FeatureProbes.Proofs.WebIdl.Restriction
import Mathlib.Data.List.Basic

/-!
# Resolving exposure

Of several extended attributes for exposure the first one counts.  It is resolved if it is a
wildcard or lists names all of which stand for valid scopes; otherwise the error tells the first
scope that is not valid.

The scopes that are found are those that the names stand for.  So the order of the names, repeated
names, and the choice between the names of a scope change neither the scopes nor whether they are
found.
-/

namespace FeatureProbes
namespace WebIdl

/-- An attribute is the first one for exposure. -/
def IsFirstExposed
    (attributes : List ExtendedAttribute)
    (item : ExtendedAttribute) : Prop :=
  ∃ earlier later, attributes = earlier ++ item :: later ∧ item.name = "Exposed" ∧
    ∀ other ∈ earlier, other.name ≠ "Exposed"

/-- The names that a value lists, if it is one name or a list of names. -/
def AttributeValue.listed? : AttributeValue → Option (List String)
  | identifier name => some [name]
  | identifierList names => some names
  | _ => none

/-- The names that an attribute lists. -/
def ExtendedAttribute.listed?
    (item : ExtendedAttribute) :
    Option (List String) :=
  item.value.bind AttributeValue.listed?

/-- Two rows of names differ in the order of the names, in how often they are listed, and in the
names that are chosen for scopes with several names. -/
inductive Respelled : List String → List String → Prop where
  | perm {names names' : List String}
      (h : names.Perm names') :
      Respelled names names'
  | repeated {names : List String} {name : String}
      (h : name ∈ names) :
      Respelled names (name :: names)
  | renamed (earlier : List String) (name : String) (later : List String) :
      Respelled (earlier ++ name :: later) (earlier ++ scopeOfName name :: later)
  | symm {names names' : List String}
      (h : Respelled names names') :
      Respelled names' names
  | trans {names names' names'' : List String}
      (h : Respelled names names')
      (h' : Respelled names' names'') :
      Respelled names names''

/-- The name of a scope stands for this scope. -/
@[simp] theorem scopeOfName_scopeOfName
    (name : String) :
    scopeOfName (scopeOfName name) = scopeOfName name := by
  by_cases hworker : name = "DedicatedWorker"
  · subst hworker
    decide
  · by_cases hprovider : name = "RTCIdentityProviderGlobalScope"
    · subst hprovider
      decide
    · simp [scopeOfName, hworker, hprovider]

/-- Rows that are spelled in different ways stand for the same scopes. -/
theorem Respelled.mem_map_iff
    {names names' : List String}
    (h : Respelled names names')
    (scope : String) :
    scope ∈ names.map scopeOfName ↔ scope ∈ names'.map scopeOfName := by
  induction h with
  | perm h =>
      exact (h.map scopeOfName).mem_iff
  | repeated hname =>
      rw [List.map_cons, List.mem_cons]
      exact ⟨Or.inr, fun h => h.elim (fun heq => heq ▸ List.mem_map_of_mem hname) id⟩
  | renamed earlier name later =>
      simp
  | symm _ ih =>
      exact ih.symm
  | trans _ _ ih ih' =>
      exact ih.trans ih'

section Resolving

variable
  {kind owner : String} {attributes attributes' : List ExtendedAttribute}
  {item item' : ExtendedAttribute} {valid scopes : NameSet} {names names' : List String}

/-! ## Names -/

theorem scopesOfNames_eq_ok_iff :
    scopesOfNames kind owner valid names = .ok scopes ↔
      (∀ name ∈ names, scopeOfName name ∈ valid.keys) ∧
        scopes = .ofNames (names.map scopeOfName) := by
  rw [scopesOfNames]
  cases hfind : (names.map scopeOfName).find? fun scope => !valid.contains scope with
  | some scope =>
      have hmem := List.mem_of_find?_eq_some hfind
      have hinvalid := List.find?_some hfind
      rw [Bool.not_eq_true', ← Bool.not_eq_true, SortedMap.contains_iff] at hinvalid
      obtain ⟨name, hname, rfl⟩ := List.mem_map.1 hmem
      refine iff_of_false ?_ fun h => hinvalid (h.1 name hname)
      rintro ⟨⟩
  | none =>
      have hvalid : ∀ name ∈ names, scopeOfName name ∈ valid.keys := by
        intro name hname
        have hfine := List.find?_eq_none.1 hfind _ (List.mem_map_of_mem hname)
        simpa [SortedMap.contains_iff] using hfine
      simp only [Except.ok.injEq]
      exact ⟨fun h => ⟨hvalid, h.symm⟩, fun h => h.2.symm⟩

/-- The error tells the first scope that is not valid. -/
theorem scopesOfNames_eq_error_iff
    {error : BuildError} :
    scopesOfNames kind owner valid names = .error error ↔
      ∃ earlier name later, names = earlier ++ name :: later ∧
        (∀ other ∈ earlier, scopeOfName other ∈ valid.keys) ∧ scopeOfName name ∉ valid.keys ∧
        error = .invalidScope kind owner (scopeOfName name) := by
  have hfirst : ∀ name, names.find? (fun name => !valid.contains (scopeOfName name)) = some name ↔
      ∃ earlier later, names = earlier ++ name :: later ∧
        (∀ other ∈ earlier, scopeOfName other ∈ valid.keys) ∧ scopeOfName name ∉ valid.keys := by
    intro name
    rw [List.find?_eq_some_iff_append]
    simp only [Bool.not_eq_true', Bool.not_not, ← Bool.not_eq_true, SortedMap.contains_iff]
    constructor
    · rintro ⟨hname, earlier, later, hsplit, hearlier⟩
      exact ⟨earlier, later, hsplit, hearlier, hname⟩
    · rintro ⟨earlier, later, hsplit, hearlier, hname⟩
      exact ⟨hname, earlier, later, hsplit, hearlier⟩
  have herror : scopesOfNames kind owner valid names = .error error ↔
      ∃ name, names.find? (fun name => !valid.contains (scopeOfName name)) = some name ∧
        error = .invalidScope kind owner (scopeOfName name) := by
    rw [scopesOfNames, List.find?_map, Function.comp_def]
    cases names.find? (fun name => !valid.contains (scopeOfName name)) with
    | none =>
        simp
    | some name =>
        simp [eq_comm]
  rw [herror]
  constructor
  · rintro ⟨name, hname, heq⟩
    obtain ⟨earlier, later, hsplit, hearlier, hinvalid⟩ := (hfirst name).1 hname
    exact ⟨earlier, name, later, hsplit, hearlier, hinvalid, heq⟩
  · rintro ⟨earlier, name, later, hsplit, hearlier, hinvalid, heq⟩
    exact ⟨name, (hfirst name).2 ⟨earlier, later, hsplit, hearlier, hinvalid⟩, heq⟩

/-- Rows that are spelled in different ways are resolved to the same scopes, if they are. -/
theorem Respelled.scopesOfNames_eq_ok_iff
    (h : Respelled names names') :
    scopesOfNames kind owner valid names = .ok scopes ↔
      scopesOfNames kind owner valid names' = .ok scopes := by
  have hsame : NameSet.ofNames (names.map scopeOfName) = .ofNames (names'.map scopeOfName) := by
    refine NameSet.ext_keys fun scope => ?_
    rw [NameSet.mem_keys_ofNames_iff, NameSet.mem_keys_ofNames_iff, h.mem_map_iff]
  have hvalid : ∀ row : List String, (∀ name ∈ row, scopeOfName name ∈ valid.keys) ↔
      ∀ scope, scope ∈ row.map scopeOfName → scope ∈ valid.keys :=
    fun row => List.forall_mem_map.symm
  rw [WebIdl.scopesOfNames_eq_ok_iff, WebIdl.scopesOfNames_eq_ok_iff, hsame, hvalid, hvalid]
  simp only [h.mem_map_iff]

/-! ## Attributes -/

theorem findAttribute_exposed_iff :
    findAttribute attributes "Exposed" = some item ↔ IsFirstExposed attributes item := by
  rw [findAttribute, List.find?_eq_some_iff_append]
  simp only [beq_iff_eq, Bool.not_eq_true', beq_eq_false_iff_ne]
  constructor
  · rintro ⟨hname, earlier, later, hsplit, hearlier⟩
    exact ⟨earlier, later, hsplit, hname, hearlier⟩
  · rintro ⟨earlier, later, hsplit, hname, hearlier⟩
    exact ⟨hname, earlier, later, hsplit, hearlier⟩

theorem exposedScopes_of_wildcard
    (h : IsFirstExposed attributes item)
    (hvalue : item.value = some .wildcard) :
    exposedScopes kind owner attributes valid = .ok valid := by
  rw [exposedScopes, findAttribute_exposed_iff.2 h]
  simp only [hvalue]

theorem exposedScopes_of_listed
    (h : IsFirstExposed attributes item)
    (hnames : item.listed? = some names) :
    exposedScopes kind owner attributes valid = scopesOfNames kind owner valid names := by
  obtain ⟨value, hvalue, hlisted⟩ := Option.bind_eq_some_iff.1 hnames
  rw [exposedScopes, findAttribute_exposed_iff.2 h]
  simp only [hvalue]
  cases value <;> cases hlisted <;> rfl

/-- Scopes are found, or one that is not valid is met, only by resolving the first attribute. -/
theorem exists_first_of_exposedScopes
    {result : Except BuildError NameSet}
    (h : exposedScopes kind owner attributes valid = result)
    (hresult : (∃ scopes, result = .ok scopes) ∨
      ∃ kind' owner' scope, result = .error (.invalidScope kind' owner' scope)) :
    ∃ item, IsFirstExposed attributes item ∧
      (item.value = some .wildcard ∧ result = .ok valid ∨
        ∃ names, item.listed? = some names ∧ scopesOfNames kind owner valid names = result) := by
  subst h
  rw [exposedScopes] at hresult ⊢
  cases hitem : findAttribute attributes "Exposed" with
  | none =>
      simp [hitem] at hresult
  | some item =>
      refine ⟨item, findAttribute_exposed_iff.1 hitem, ?_⟩
      simp only [hitem] at hresult ⊢
      split
      · rename_i hvalue
        exact Or.inl ⟨hvalue, rfl⟩
      · rename_i name hvalue
        exact Or.inr ⟨[name], by rw [ExtendedAttribute.listed?, hvalue]; rfl, rfl⟩
      · rename_i names hvalue
        exact Or.inr ⟨names, by rw [ExtendedAttribute.listed?, hvalue]; rfl, rfl⟩
      · rename_i hwildcard hname hnames
        simp at hresult

/-- Scopes are found if the first attribute is a wildcard, and then they are all valid ones, or if it
lists names all of which stand for valid scopes, and then they are these scopes. -/
theorem exposedScopes_eq_ok_iff :
    exposedScopes kind owner attributes valid = .ok scopes ↔
      ∃ item, IsFirstExposed attributes item ∧
        (item.value = some .wildcard ∧ scopes = valid ∨
          ∃ names, item.listed? = some names ∧
            (∀ name ∈ names, scopeOfName name ∈ valid.keys) ∧
            ∀ scope, scope ∈ scopes.keys ↔ ∃ name ∈ names, scopeOfName name = scope) := by
  have himage : ∀ names : List String, scopes = .ofNames (names.map scopeOfName) ↔
      ∀ scope, scope ∈ scopes.keys ↔ ∃ name ∈ names, scopeOfName name = scope := by
    intro names
    constructor
    · rintro rfl scope
      rw [NameSet.mem_keys_ofNames_iff, List.mem_map]
    · intro h
      refine NameSet.ext_keys fun scope => ?_
      rw [h, NameSet.mem_keys_ofNames_iff, List.mem_map]
  constructor
  · intro h
    obtain ⟨item, hfirst, ⟨hvalue, heq⟩ | ⟨names, hnames, heq⟩⟩ :=
      exists_first_of_exposedScopes h (Or.inl ⟨scopes, rfl⟩)
    · exact ⟨item, hfirst, Or.inl ⟨hvalue, Except.ok.inj heq⟩⟩
    · obtain ⟨hvalid, heq⟩ := scopesOfNames_eq_ok_iff.1 heq
      exact ⟨item, hfirst, Or.inr ⟨names, hnames, hvalid, (himage names).1 heq⟩⟩
  · rintro ⟨item, hfirst, ⟨hvalue, rfl⟩ | ⟨names, hnames, hvalid, hscopes⟩⟩
    · exact exposedScopes_of_wildcard hfirst hvalue
    · rw [exposedScopes_of_listed hfirst hnames, scopesOfNames_eq_ok_iff]
      exact ⟨hvalid, (himage names).2 hscopes⟩

/-- A scope is reported if it is the first one that is listed and not valid. -/
theorem exposedScopes_eq_invalidScope_iff
    {kind' owner' scope : String} :
    exposedScopes kind owner attributes valid = .error (.invalidScope kind' owner' scope) ↔
      kind' = kind ∧ owner' = owner ∧
        ∃ item earlier name later, IsFirstExposed attributes item ∧
          item.listed? = some (earlier ++ name :: later) ∧
          (∀ other ∈ earlier, scopeOfName other ∈ valid.keys) ∧
          scopeOfName name ∉ valid.keys ∧ scopeOfName name = scope := by
  constructor
  · intro h
    obtain ⟨item, hfirst, ⟨-, heq⟩ | ⟨names, hnames, heq⟩⟩ :=
      exists_first_of_exposedScopes h (Or.inr ⟨kind', owner', scope, rfl⟩)
    · cases heq
    · obtain ⟨earlier, name, later, rfl, hearlier, hinvalid, herror⟩ :=
        scopesOfNames_eq_error_iff.1 heq
      cases herror
      exact ⟨rfl, rfl, item, earlier, name, later, hfirst, hnames, hearlier, hinvalid, rfl⟩
  · rintro ⟨rfl, rfl, item, earlier, name, later, hfirst, hnames, hearlier, hinvalid, rfl⟩
    rw [exposedScopes_of_listed hfirst hnames, scopesOfNames_eq_error_iff]
    exact ⟨earlier, name, later, rfl, hearlier, hinvalid, rfl⟩

/-- Scopes are found if the first attribute for exposure is a wildcard, and then they are all valid
ones, or if it lists names all of which stand for valid scopes, and then they are these scopes.
A scope is reported if it is the first one that is listed and not valid.  Rows of names that differ
in the order, in repeated names, or in the names that are chosen for scopes have the same scopes, if
any. -/
theorem exposedScopes_outcome
    (kind owner : String)
    (attributes : List ExtendedAttribute)
    (valid : NameSet) :
    (∀ scopes, exposedScopes kind owner attributes valid = .ok scopes ↔
        ∃ item, IsFirstExposed attributes item ∧
          (item.value = some .wildcard ∧ scopes = valid ∨
            ∃ names, item.listed? = some names ∧
              (∀ name ∈ names, scopeOfName name ∈ valid.keys) ∧
              ∀ scope, scope ∈ scopes.keys ↔ ∃ name ∈ names, scopeOfName name = scope)) ∧
      (∀ scopes, exposedScopes kind owner attributes valid = .ok scopes →
        ∀ scope ∈ scopes.keys, scope ∈ valid.keys) ∧
      (∀ kind' owner' scope,
        exposedScopes kind owner attributes valid = .error (.invalidScope kind' owner' scope) ↔
          kind' = kind ∧ owner' = owner ∧
            ∃ item earlier name later, IsFirstExposed attributes item ∧
              item.listed? = some (earlier ++ name :: later) ∧
              (∀ other ∈ earlier, scopeOfName other ∈ valid.keys) ∧
              scopeOfName name ∉ valid.keys ∧ scopeOfName name = scope) ∧
      ∀ attributes' item item' names names',
        IsFirstExposed attributes item → IsFirstExposed attributes' item' →
        item.listed? = some names → item'.listed? = some names' → Respelled names names' →
        ∀ scopes, exposedScopes kind owner attributes valid = .ok scopes ↔
          exposedScopes kind owner attributes' valid = .ok scopes := by
  refine ⟨fun scopes => exposedScopes_eq_ok_iff, fun scopes h => (mem_exposedScopes_iff h).1,
    fun kind' owner' scope => exposedScopes_eq_invalidScope_iff, ?_⟩
  intro attributes' item item' names names' hfirst hfirst' hnames hnames' hrespelled scopes
  rw [exposedScopes_of_listed hfirst hnames, exposedScopes_of_listed hfirst' hnames']
  exact hrespelled.scopesOfNames_eq_ok_iff

end Resolving

/-- Attributes of which the second one for exposure does not count. -/
def lagoon (names : List String) : List ExtendedAttribute :=
  [⟨"SecureContext", none, []⟩, ⟨"Exposed", some (.identifierList names), []⟩,
    ⟨"Exposed", some .wildcard, []⟩]

theorem isFirstExposed_lagoon
    (names : List String) :
    IsFirstExposed (lagoon names) ⟨"Exposed", some (.identifierList names), []⟩ :=
  ⟨[⟨"SecureContext", none, []⟩], _, rfl, rfl, by simp⟩

/-- The valid scopes of a lagoon. -/
def lagoonScopes : NameSet :=
  .ofNames ["Audio", "Window", "Worker"]

/-- The lagoon is exposed in the same two scopes where one of them is given by another name and
where one is listed twice.  Where two names are not valid, the first of them is reported. -/
theorem exposedScopes_lagoon :
    ∃ scopes,
      exposedScopes "interface" "Lagoon" (lagoon ["DedicatedWorker", "Window"]) lagoonScopes =
        .ok scopes ∧
      scopes = .ofNames ["Window", "Worker"] ∧ "Worker" ∈ lagoonScopes.keys ∧
      exposedScopes "interface" "Lagoon" (lagoon ["Window", "Worker", "Window"]) lagoonScopes =
        .ok scopes ∧
      exposedScopes "interface" "Lagoon" (lagoon ["Window", "Shore", "Tide"]) lagoonScopes =
        .error (.invalidScope "interface" "Lagoon" "Shore") := by
  obtain ⟨hok, hsubset, -, hsame⟩ :=
    exposedScopes_outcome "interface" "Lagoon" (lagoon ["DedicatedWorker", "Window"]) lagoonScopes
  obtain ⟨-, -, herror, -⟩ :=
    exposedScopes_outcome "interface" "Lagoon" (lagoon ["Window", "Shore", "Tide"]) lagoonScopes
  have himage : ∀ scope, scope ∈ (NameSet.ofNames ["Window", "Worker"]).keys ↔
      ∃ name ∈ ["DedicatedWorker", "Window"], scopeOfName name = scope := by
    intro scope
    rw [NameSet.mem_keys_ofNames_iff]
    simp [scopeOfName, or_comm, eq_comm]
  have hfound := (hok (.ofNames ["Window", "Worker"])).2
    ⟨_, isFirstExposed_lagoon _, Or.inr ⟨_, rfl, by decide, himage⟩⟩
  have hrespelled : Respelled ["DedicatedWorker", "Window"] ["Window", "Worker", "Window"] :=
    .trans (.renamed [] "DedicatedWorker" ["Window"]) (.repeated (by decide))
  refine ⟨_, hfound, rfl, hsubset _ hfound "Worker" (by decide), ?_, ?_⟩
  · exact (hsame _ _ _ _ _ (isFirstExposed_lagoon _) (isFirstExposed_lagoon _) rfl rfl hrespelled
      _).1 hfound
  · exact (herror "interface" "Lagoon" "Shore").2 ⟨rfl, rfl, _, ["Window"], "Shore", ["Tide"],
      isFirstExposed_lagoon _, rfl, by decide, by decide, by decide⟩

end WebIdl
end FeatureProbes
