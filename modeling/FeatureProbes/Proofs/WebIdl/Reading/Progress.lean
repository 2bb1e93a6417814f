import FeatureProbes.WebIdl.Parser.Definition

/-!
# How far readers come

A reader gets the tokens from where it stands to the end, and leaves some of them.  So its place is
told by the tokens that are left, and it is at the end where none is.

Loops and nested constructs are read within a number of rounds and of levels.  That a construct in
another one stands further on is said by comparing two numbers of levels: where there are fewer
tokens than levels, readers of both come to the same.
-/

namespace FeatureProbes
namespace WebIdl
namespace Parser

/-- A reader leaves an end of the tokens it got, and a shorter one where its value says so, or it
stops at a place in them.  It does not run out of rounds or levels. -/
def ComesForward {α : Type} (advances : α → Bool) (tokens : List Token) :
    Except Stop (α × List Token) → Prop
  | .ok (found, rest) =>
      rest <:+ tokens ∧ (advances found = true → rest.length < tokens.length)
  | .error stop =>
      stop.problem ≠ .tooDeep ∧
        ∃ rest, rest <:+ tokens ∧ stop.line = rest.head?.map Token.line

/-- On fewer tokens than the bound, two readers come to the same and go forward. -/
def ComeAlike {α : Type} (advances : α → Bool) (bound : Nat) (p q : Parser α) : Prop :=
  ∀ tokens, tokens.length < bound → p tokens = q tokens ∧ ComesForward advances tokens (p tokens)

/-- Two readers do not go back. -/
def KeepAlike {α : Type} (bound : Nat) (p q : Parser α) : Prop :=
  ComeAlike (fun _ => false) bound p q

/-- Two readers take at least one token. -/
def AdvanceAlike {α : Type} (bound : Nat) (p q : Parser α) : Prop :=
  ComeAlike (fun _ => true) bound p q

section Rules

variable {α β : Type} {bound : Nat} {first first' : α → Bool} {whole : β → Bool}
  {p q : Parser α} {after after' : α → Parser β}

/-- What comes forward from a later place comes forward from an earlier one. -/
theorem ComesForward.trans
    {tokens rest : List Token} {run : Except Stop (α × List Token)}
    (h : ComesForward first rest run)
    (hsuffix : rest <:+ tokens)
    (hfirst : ∀ found, first' found = true → first found = true ∨ rest.length < tokens.length) :
    ComesForward first' tokens run := by
  cases run with
  | error stop =>
      obtain ⟨hproblem, place, hplace, hline⟩ := h
      exact ⟨hproblem, place, hplace.trans hsuffix, hline⟩
  | ok read =>
      obtain ⟨found, left⟩ := read
      obtain ⟨hleft, hadvances⟩ := h
      refine ⟨hleft.trans hsuffix, fun hfound => ?_⟩
      rcases hfirst found hfound with hfound | hless
      · exact Nat.lt_of_lt_of_le (hadvances hfound) hsuffix.length_le
      · exact Nat.lt_of_le_of_lt hleft.length_le hless

theorem ComeAlike.mono
    {more : Nat}
    (h : ComeAlike first more p q)
    (hbound : bound ≤ more)
    (hfirst : ∀ found, first' found = true → first found = true) :
    ComeAlike first' bound p q := by
  intro tokens htokens
  obtain ⟨heq, hcomes⟩ := h tokens (Nat.lt_of_lt_of_le htokens hbound)
  exact ⟨heq, hcomes.trans List.suffix_rfl fun found hfound => Or.inl (hfirst found hfound)⟩

theorem KeepAlike.fewer
    {more : Nat}
    (h : KeepAlike more p q)
    (hbound : bound ≤ more) :
    KeepAlike bound p q :=
  ComeAlike.mono h hbound fun _ => id

theorem AdvanceAlike.fewer
    {more : Nat}
    (h : AdvanceAlike more p q)
    (hbound : bound ≤ more) :
    AdvanceAlike bound p q :=
  ComeAlike.mono h hbound fun _ => id

theorem AdvanceAlike.keep
    (h : AdvanceAlike bound p q) :
    KeepAlike bound p q :=
  h.mono (Nat.le_refl bound) nofun

/-- Where the first reader takes a token, the second one gets fewer and needs to take none. -/
theorem ComeAlike.bind
    (h : ComeAlike first bound p q)
    (hadvanced : ∀ found, first found = true → KeepAlike (bound - 1) (after found) (after' found))
    (hkept : ∀ found, first found = false → ComeAlike whole bound (after found) (after' found)) :
    ComeAlike whole bound (p >>= after) (q >>= after') := by
  intro tokens htokens
  obtain ⟨heq, hcomes⟩ := h tokens htokens
  change Except.bind (p tokens) _ = Except.bind (q tokens) _ ∧
    ComesForward whole tokens (Except.bind (p tokens) _)
  rw [← heq]
  cases hrun : p tokens with
  | error stop =>
      rw [hrun] at hcomes
      exact ⟨rfl, hcomes⟩
  | ok read =>
      obtain ⟨found, rest⟩ := read
      rw [hrun] at hcomes
      obtain ⟨hsuffix, hlength⟩ := hcomes
      change after found rest = after' found rest ∧ ComesForward whole tokens (after found rest)
      cases hfound : first found with
      | true =>
          have hless := hlength hfound
          obtain ⟨hsame, hnext⟩ := hadvanced found hfound rest (by omega)
          exact ⟨hsame, hnext.trans hsuffix fun _ _ => Or.inr hless⟩
      | false =>
          have hle := hsuffix.length_le
          obtain ⟨hsame, hnext⟩ := hkept found hfound rest (by omega)
          exact ⟨hsame, hnext.trans hsuffix fun _ => Or.inl⟩

/-- Behind a token that was taken, readers need to come to the same on fewer tokens only. -/
theorem AdvanceAlike.bind_deeper
    (h : AdvanceAlike (bound + 1) p q)
    (hafter : ∀ found, KeepAlike bound (after found) (after' found)) :
    ComeAlike whole (bound + 1) (p >>= after) (q >>= after') :=
  ComeAlike.bind h (fun found _ => hafter found) nofun

theorem AdvanceAlike.bind
    (h : AdvanceAlike bound p q)
    (hafter : ∀ found, KeepAlike bound (after found) (after' found)) :
    ComeAlike whole bound (p >>= after) (q >>= after') :=
  ComeAlike.bind h (fun found _ => (hafter found).fewer (Nat.sub_le bound 1)) nofun

theorem KeepAlike.bind
    (h : KeepAlike bound p q)
    (hafter : ∀ found, ComeAlike whole bound (after found) (after' found)) :
    ComeAlike whole bound (p >>= after) (q >>= after') :=
  ComeAlike.bind h nofun fun found _ => hafter found

theorem comeAlike_pure
    {found : α}
    (h : first found = false) :
    ComeAlike first bound (pure found) (pure found) := by
  refine fun tokens _ => ⟨rfl, List.suffix_rfl, fun hfound => ?_⟩
  rw [h] at hfound
  cases hfound

theorem keepAlike_pure
    (found : α) :
    KeepAlike bound (pure found) (pure found) :=
  comeAlike_pure rfl

theorem AdvanceAlike.last
    (f : α → β)
    (h : AdvanceAlike bound p q) :
    ComeAlike whole bound (do return f (← p)) (do return f (← q)) :=
  h.bind fun found => keepAlike_pure (f found)

theorem KeepAlike.last
    (f : α → β)
    (h : KeepAlike bound p q) :
    KeepAlike bound (do return f (← p)) (do return f (← q)) :=
  h.bind fun found => keepAlike_pure (f found)

theorem AdvanceAlike.map
    (f : α → β)
    (h : AdvanceAlike bound p q) :
    ComeAlike whole bound (f <$> p) (f <$> q) := by
  rw [← bind_pure_comp, ← bind_pure_comp]
  exact h.last f

theorem comeAlike_stop
    {problem : SyntaxProblem}
    (h : problem ≠ .tooDeep) :
    ComeAlike first bound (stop problem) (stop problem) :=
  fun tokens _ => ⟨rfl, h, tokens, List.suffix_rfl, rfl⟩

theorem comeAlike_unexpected
    (expectation : Expectation) :
    ComeAlike first bound (unexpected expectation) (unexpected expectation) :=
  fun tokens _ => ⟨rfl, nofun, tokens, List.suffix_rfl, rfl⟩

theorem keepAlike_look
    {view : List Token → α} :
    KeepAlike bound (do return view (← get)) (do return view (← get)) :=
  fun _ _ => ⟨rfl, List.suffix_rfl, nofun⟩

theorem keepAlike_modify
    {f : List Token → List Token}
    (h : ∀ tokens, f tokens <:+ tokens) :
    KeepAlike bound (modify f) (modify f) :=
  fun tokens _ => ⟨rfl, h tokens, nofun⟩

theorem ComeAlike.ite
    {other other' : Parser α}
    (condition : Bool)
    (h : ComeAlike first bound p q)
    (hother : ComeAlike first bound other other') :
    ComeAlike first bound (if condition then p else other) (if condition then q else other') := by
  cases condition with
  | true =>
      exact h
  | false =>
      exact hother

/-- A loop has one round more than there are tokens. -/
theorem keepAlike_rounds
    {body body' : Nat → Parser α}
    (h : ∀ rounds ≤ bound, KeepAlike rounds (body rounds) (body' rounds)) :
    KeepAlike bound (do body ((← get).length + 1)) (do body' ((← get).length + 1)) :=
  fun tokens htokens => h (tokens.length + 1) htokens tokens (Nat.lt_succ_self tokens.length)

theorem comeAlike_rounds
    {body body' : Nat → Parser α}
    (h : ∀ rounds ≤ bound, KeepAlike rounds (body rounds) (body' rounds))
    (hafter : ∀ found, ComeAlike whole bound (after found) (after' found)) :
    ComeAlike whole bound
      (do
        let found ← body ((← get).length + 1)
        after found)
      (do
        let found ← body' ((← get).length + 1)
        after' found) := by
  have hwhole := KeepAlike.bind (keepAlike_rounds h) hafter
  rwa [bind_assoc, bind_assoc] at hwhole

end Rules

/-! ## Single tokens -/

section Tokens

variable {α : Type} {bound : Nat} {whole : α → Bool} {after after' : Bool → Parser α}

theorem keepAlike_skip :
    KeepAlike bound skip skip :=
  keepAlike_modify List.tail_suffix

/-- A reader that goes past one token if it is of some kind takes a token if it says so. -/
theorem comeAlike_eat
    {look : Parser Bool} {p : Token → Bool}
    (hlook : look = do return (← get).head?.any p) :
    ComeAlike id bound
      (do
        if ← look then
          skip
          return true
        else return false)
      (do
        if ← look then
          skip
          return true
        else return false) := by
  subst hlook
  intro tokens _
  refine ⟨rfl, ?_⟩
  cases tokens with
  | nil =>
      exact ⟨List.suffix_rfl, nofun⟩
  | cons token rest =>
      change ComesForward id (token :: rest)
        (StateT.run (if p token then (do skip; return true) else (do return false))
          (token :: rest))
      cases p token with
      | true =>
          exact ⟨List.suffix_cons token rest, fun _ => Nat.lt_succ_self rest.length⟩
      | false =>
          exact ⟨List.suffix_rfl, nofun⟩

theorem comeAlike_eatMark
    (mark : String) :
    ComeAlike id bound (eatMark mark) (eatMark mark) :=
  comeAlike_eat rfl

theorem comeAlike_eatWord
    (word : String) :
    ComeAlike id bound (eatWord word) (eatWord word) :=
  comeAlike_eat rfl

theorem ComeAlike.given_deeper
    {p q : Parser Bool}
    (h : ComeAlike id (bound + 1) p q)
    (hgiven : KeepAlike bound (after true) (after' true))
    (hmissing : ComeAlike whole (bound + 1) (after false) (after' false)) :
    ComeAlike whole (bound + 1) (p >>= after) (q >>= after') := by
  refine ComeAlike.bind h (fun found hfound => ?_) fun found hfound => ?_
  · obtain rfl : found = true := hfound
    exact hgiven
  · obtain rfl : found = false := hfound
    exact hmissing

/-- What comes after a reader that says whether it took a token. -/
theorem ComeAlike.given
    {p q : Parser Bool}
    (h : ComeAlike id bound p q)
    (hgiven : KeepAlike bound (after true) (after' true))
    (hmissing : ComeAlike whole bound (after false) (after' false)) :
    ComeAlike whole bound (p >>= after) (q >>= after') := by
  cases bound with
  | zero =>
      exact fun _ => nofun
  | succ bound =>
      exact h.given_deeper (hgiven.fewer (Nat.le_succ bound)) hmissing

theorem keepAlike_eatMark
    (mark : String) :
    KeepAlike bound (eatMark mark) (eatMark mark) :=
  (comeAlike_eatMark mark).mono (Nat.le_refl bound) nofun

theorem keepAlike_eatWord
    (word : String) :
    KeepAlike bound (eatWord word) (eatWord word) :=
  (comeAlike_eatWord word).mono (Nat.le_refl bound) nofun

theorem advanceAlike_expectMark
    (mark : String) :
    AdvanceAlike bound (expectMark mark) (expectMark mark) :=
  (comeAlike_eatMark mark).given (keepAlike_pure ()) (comeAlike_unexpected _)

/-- A reader that takes one token. -/
theorem advanceAlike_token
    {p : Token → Bool} {f : Token → α} {other : Parser α}
    (hother : ComeAlike (fun _ => true) bound other other) :
    AdvanceAlike bound
      (fun tokens =>
        match tokens with
        | [] => other tokens
        | token :: rest => if p token then .ok (f token, rest) else other tokens)
      (fun tokens =>
        match tokens with
        | [] => other tokens
        | token :: rest => if p token then .ok (f token, rest) else other tokens) := by
  intro tokens htokens
  refine ⟨rfl, ?_⟩
  cases tokens with
  | nil =>
      exact (hother [] htokens).2
  | cons token rest =>
      change ComesForward _ _ (if p token then .ok (f token, rest) else other (token :: rest))
      cases p token with
      | true =>
          exact ⟨List.suffix_cons token rest, fun _ => Nat.lt_succ_self rest.length⟩
      | false =>
          exact (hother (token :: rest) htokens).2

theorem advanceAlike_identifier :
    AdvanceAlike bound identifier identifier :=
  advanceAlike_token (comeAlike_unexpected _)

theorem advanceAlike_stringValue :
    AdvanceAlike bound stringValue stringValue :=
  advanceAlike_token (comeAlike_unexpected _)

theorem keepAlike_eatWords
    (word : String) :
    KeepAlike bound (eatWords word) (eatWords word) := by
  refine keepAlike_look.bind fun found => ?_
  exact (keepAlike_modify fun _ => List.dropWhile_suffix _).bind fun _ => keepAlike_pure found

end Tokens

/-! ## Loops -/

section Loops

variable {α : Type} {bound rounds rounds' : Nat} {item item' : Parser α}

/-- A loop whose rounds go on behind a token needs no more rounds than there are tokens. -/
theorem keepAlike_within
    {body body' : Nat → Parser (List α)}
    (hround : ∀ less < bound, ∀ rounds rounds', KeepAlike less (body rounds) (body' rounds') →
      KeepAlike (less + 1) (body (rounds + 1)) (body' (rounds' + 1)))
    (hrounds : bound ≤ rounds)
    (hrounds' : bound ≤ rounds') :
    KeepAlike bound (body rounds) (body' rounds') := by
  induction bound generalizing rounds rounds' with
  | zero =>
      exact fun _ => nofun
  | succ bound ih =>
      obtain ⟨rounds, rfl⟩ := Nat.exists_eq_succ_of_ne_zero (Nat.ne_zero_of_lt hrounds)
      obtain ⟨rounds', rfl⟩ := Nat.exists_eq_succ_of_ne_zero (Nat.ne_zero_of_lt hrounds')
      refine hround bound (Nat.lt_succ_self bound) rounds rounds' ?_
      exact ih (fun less hless => hround less (Nat.lt_succ_of_lt hless))
        (Nat.le_of_succ_le_succ hrounds) (Nat.le_of_succ_le_succ hrounds')

theorem keepAlike_commaListWithin
    (close : String)
    (hitem : AdvanceAlike bound item item')
    (hrounds : bound ≤ rounds)
    (hrounds' : bound ≤ rounds') :
    KeepAlike bound (commaListWithin close item rounds) (commaListWithin close item' rounds') := by
  refine keepAlike_within (fun less hless rounds rounds' hmore => ?_) hrounds hrounds'
  refine keepAlike_look.bind fun closed => ComeAlike.ite closed (keepAlike_pure []) ?_
  refine (hitem.fewer hless).bind_deeper fun first => ?_
  exact (comeAlike_eatMark ",").given (hmore.last (first :: ·)) (keepAlike_pure [first])

theorem keepAlike_moreWithin
    {separator : Parser Bool}
    (hseparator : ∀ bound, KeepAlike bound separator separator)
    (hitem : AdvanceAlike bound item item')
    (hrounds : bound ≤ rounds)
    (hrounds' : bound ≤ rounds') :
    KeepAlike bound (moreWithin separator item rounds) (moreWithin separator item' rounds') := by
  refine keepAlike_within (fun less hless rounds rounds' hmore => ?_) hrounds hrounds'
  refine (hseparator _).bind fun more => ComeAlike.ite more ?_ (keepAlike_pure [])
  exact (hitem.fewer hless).bind_deeper fun next => hmore.last (next :: ·)

theorem keepAlike_untilWithin
    {ends : Parser Bool}
    (hends : ∀ bound, KeepAlike bound ends ends)
    (hitem : AdvanceAlike bound item item')
    (hrounds : bound ≤ rounds)
    (hrounds' : bound ≤ rounds') :
    KeepAlike bound (untilWithin ends item rounds) (untilWithin ends item' rounds') := by
  refine keepAlike_within (fun less hless rounds rounds' hmore => ?_) hrounds hrounds'
  refine (hends _).bind fun ended => ComeAlike.ite ended (keepAlike_pure []) ?_
  exact (hitem.fewer hless).bind_deeper fun first => hmore.last (first :: ·)

/-- The closing mark is taken at least. -/
theorem advanceAlike_commaList
    (close : String)
    (hitem : AdvanceAlike bound item item') :
    AdvanceAlike bound (commaList close item) (commaList close item') := by
  refine comeAlike_rounds (fun rounds hrounds => ?_) fun items => ?_
  · exact keepAlike_commaListWithin close (hitem.fewer hrounds) (Nat.le_refl rounds)
      (Nat.le_refl rounds)
  · exact (advanceAlike_expectMark close).bind fun _ => keepAlike_pure items

/-- The first item is taken at least. -/
theorem advanceAlike_separated
    {separator : Parser Bool}
    (hseparator : ∀ bound, KeepAlike bound separator separator)
    (hitem : AdvanceAlike bound item item') :
    AdvanceAlike bound (separated separator item) (separated separator item') := by
  refine hitem.bind fun first => comeAlike_rounds (fun rounds hrounds => ?_) fun items => ?_
  · exact keepAlike_moreWithin hseparator (hitem.fewer hrounds) (Nat.le_refl rounds)
      (Nat.le_refl rounds)
  · exact keepAlike_pure (first :: items)

theorem keepAlike_itemsUntil
    {ends : Parser Bool}
    (hends : ∀ bound, KeepAlike bound ends ends)
    (hitem : AdvanceAlike bound item item') :
    KeepAlike bound (itemsUntil ends item) (itemsUntil ends item') :=
  keepAlike_rounds fun rounds hrounds =>
    keepAlike_untilWithin hends (hitem.fewer hrounds) (Nat.le_refl rounds) (Nat.le_refl rounds)

end Loops

/-! ## Types, arguments and extended attributes -/

theorem keepAlike_defaultValue
    {bound : Nat} :
    KeepAlike bound defaultValue defaultValue := by
  refine (comeAlike_eatMark "[").given (advanceAlike_expectMark "]").keep ?_
  refine (comeAlike_eatMark "\x7b").given (advanceAlike_expectMark "\x7d").keep ?_
  refine keepAlike_look.bind fun isName => keepAlike_look.bind fun isInteger => ?_
  refine keepAlike_look.bind fun isDecimal => keepAlike_look.bind fun isString => ?_
  exact ComeAlike.ite _ keepAlike_skip (comeAlike_unexpected .defaultValue)

section Types

variable {bound : Nat} {inner inner' : Parser IdlType}

theorem advanceAlike_typeParameters
    (hinner : AdvanceAlike bound inner inner') :
    AdvanceAlike bound (typeParameters inner) (typeParameters inner') := by
  refine (advanceAlike_expectMark "<").bind fun _ => ?_
  refine (advanceAlike_separated (fun _ => keepAlike_eatMark ",") hinner).bind fun args => ?_
  exact (advanceAlike_expectMark ">").bind fun _ => keepAlike_pure args

/-- The types in a type stand behind its name. -/
theorem advanceAlike_namedType
    (hinner : AdvanceAlike bound inner inner') :
    AdvanceAlike (bound + 1) (namedType inner) (namedType inner') := by
  have hlong : ∀ first second : IdlType, KeepAlike bound
      (do if ← eatWord "long" then return first else return second)
      (do if ← eatWord "long" then return first else return second) := fun first second =>
    (keepAlike_eatWord "long").bind fun again =>
      ComeAlike.ite again (keepAlike_pure first) (keepAlike_pure second)
  refine advanceAlike_identifier.bind_deeper fun first => ?_
  refine ComeAlike.ite _ ?_ (ComeAlike.ite _ ?_ (ComeAlike.ite _ (hlong _ _)
    (ComeAlike.ite _ ?_ (keepAlike_pure _))))
  · refine advanceAlike_identifier.bind fun rest => ?_
    exact ComeAlike.ite _ (hlong _ _) (keepAlike_pure _)
  · exact advanceAlike_identifier.last _
  · refine keepAlike_look.bind fun opened => ?_
    exact ComeAlike.ite opened ((advanceAlike_typeParameters hinner).last _) (keepAlike_pure _)

end Types

end Parser

/-- Readers of nested constructs that come to the same on fewer tokens than the bound. -/
structure Nested.Alike (bound : Nat) (nested nested' : Nested) : Prop where
  type : Parser.AdvanceAlike bound nested.type nested'.type
  attributes : Parser.KeepAlike bound nested.attributes nested'.attributes

namespace Parser

section Nesting

variable {bound : Nat} {nested nested' : Nested}

/-- The types in a type stand behind a bracket or a name, but its extended attributes may stand at
its first token. -/
theorem advanceAlike_type
    (htype : AdvanceAlike bound nested.type nested'.type)
    (hattributes : KeepAlike (bound + 1) nested.attributes nested'.attributes) :
    AdvanceAlike (bound + 1) (type nested) (type nested') := by
  have hplain : ∀ (bound : Nat) (plain : IdlType), KeepAlike bound
      (do if ← eatMark "?" then return .nullable plain else return plain)
      (do if ← eatMark "?" then return .nullable plain else return plain) := fun _ plain =>
    (keepAlike_eatMark "?").bind fun given =>
      ComeAlike.ite given (keepAlike_pure _) (keepAlike_pure plain)
  refine hattributes.bind fun _ => (comeAlike_eatMark "(").given_deeper ?_ ?_
  · refine (advanceAlike_separated (fun _ => keepAlike_eatWord "or") htype).bind fun types => ?_
    refine (advanceAlike_expectMark ")").bind fun _ => ?_
    exact (keepAlike_pure (IdlType.union types)).bind (hplain bound)
  · exact (advanceAlike_namedType htype).bind (hplain (bound + 1))

theorem advanceAlike_argument
    (h : nested.Alike bound nested') :
    AdvanceAlike bound (argument nested) (argument nested') := by
  refine h.attributes.bind fun _ => (keepAlike_eatWord "optional").bind fun optional => ?_
  refine h.type.bind fun type => keepAlike_look.bind fun variadic => ?_
  have hname : KeepAlike bound
      (do
        let name ← identifier
        if ← eatMark "=" then defaultValue
        return (⟨name, type, optional, variadic⟩ : Argument))
      (do
        let name ← identifier
        if ← eatMark "=" then defaultValue
        return (⟨name, type, optional, variadic⟩ : Argument)) := by
    refine advanceAlike_identifier.bind fun name => ?_
    refine (keepAlike_eatMark "=").bind fun given => ?_
    exact ComeAlike.ite given (keepAlike_defaultValue.bind fun _ => keepAlike_pure _)
      (keepAlike_pure _)
  exact ComeAlike.ite variadic (keepAlike_skip.bind fun _ => hname) hname

theorem advanceAlike_arguments
    (h : nested.Alike bound nested') :
    AdvanceAlike bound (arguments nested) (arguments nested') :=
  (advanceAlike_expectMark "(").bind fun _ =>
    (advanceAlike_commaList ")" (advanceAlike_argument h)).keep

theorem advanceAlike_listedName :
    AdvanceAlike bound listedName listedName :=
  advanceAlike_token (comeAlike_stop nofun)

theorem advanceAlike_listedString :
    AdvanceAlike bound listedString listedString :=
  advanceAlike_token (comeAlike_stop nofun)

theorem advanceAlike_valueList :
    AdvanceAlike bound valueList valueList := by
  refine keepAlike_look.bind fun isString => ?_
  exact ComeAlike.ite isString ((advanceAlike_commaList ")" advanceAlike_listedString).last _)
    ((advanceAlike_commaList ")" advanceAlike_listedName).last _)

theorem advanceAlike_plainValue
    (name : String) :
    AdvanceAlike bound (plainValue name) (plainValue name) := by
  intro tokens _
  refine ⟨rfl, ?_⟩
  cases tokens with
  | nil =>
      exact ⟨nofun, [], List.suffix_rfl, rfl⟩
  | cons token rest =>
      have hread : ∀ value : AttributeValue,
          ComesForward (fun _ => true) (token :: rest) (.ok (value, rest)) := fun _ =>
        ⟨List.suffix_cons token rest, fun _ => Nat.lt_succ_self rest.length⟩
      obtain ⟨kind, text, line⟩ := token
      cases kind with
      | mark =>
          exact ⟨nofun, _, List.suffix_rfl, rfl⟩
      | ellipsis =>
          exact ⟨nofun, _, List.suffix_rfl, rfl⟩
      | _ =>
          exact hread _

theorem advanceAlike_attributeValue
    (name : String) :
    AdvanceAlike bound (attributeValue name) (attributeValue name) := by
  refine (comeAlike_eatMark "*").given (keepAlike_pure _) ?_
  exact (comeAlike_eatMark "(").given advanceAlike_valueList.keep (advanceAlike_plainValue name)

theorem advanceAlike_extendedAttribute
    (h : nested.Alike bound nested') :
    AdvanceAlike bound (extendedAttribute nested) (extendedAttribute nested') := by
  have harguments : ∀ (name : String) (value : Option AttributeValue), KeepAlike bound
      (do
        let arguments ← if ← atMark "(" then arguments nested else pure []
        return (⟨name, value, arguments⟩ : ExtendedAttribute))
      (do
        let arguments ← if ← atMark "(" then arguments nested' else pure []
        return (⟨name, value, arguments⟩ : ExtendedAttribute)) := by
    intro name value
    refine keepAlike_look.bind fun opened => ?_
    exact ComeAlike.ite opened ((advanceAlike_arguments h).last _) (keepAlike_pure _)
  refine advanceAlike_identifier.bind fun name => (keepAlike_eatMark "=").bind fun given => ?_
  refine ComeAlike.ite given ?_ (harguments name none)
  have hvalue : KeepAlike bound (some <$> attributeValue name) (some <$> attributeValue name) :=
    (advanceAlike_attributeValue name).map some
  exact hvalue.bind fun value => harguments name value

theorem keepAlike_attributes
    (h : nested.Alike bound nested') :
    KeepAlike (bound + 1) (attributes nested) (attributes nested') := by
  refine (comeAlike_eatMark "[").given_deeper ?_ (keepAlike_pure [])
  have hlist := advanceAlike_separated (fun _ => keepAlike_eatMark ",")
    (advanceAlike_extendedAttribute h)
  exact hlist.bind fun list => (advanceAlike_expectMark "]").bind fun _ => keepAlike_pure list

end Nesting

end Parser

/-- On the way from a construct to one of its kind inside it a token is taken, so readers one level
further out come to the same on one token more. -/
theorem Nested.Alike.outer
    {bound : Nat} {nested nested' : Nested}
    (h : nested.Alike bound nested') :
    nested.outer.Alike (bound + 1) nested'.outer := by
  have hattributes := Parser.keepAlike_attributes h
  exact ⟨Parser.advanceAlike_type h.type hattributes, hattributes⟩

/-- On fewer tokens than levels, more levels change nothing. -/
theorem Nested.alike_level
    {depth depth' : Nat}
    (h : depth ≤ depth') :
    (Nested.level depth).Alike depth (Nested.level depth') := by
  induction depth generalizing depth' with
  | zero =>
      exact ⟨fun _ => nofun, fun _ => nofun⟩
  | succ depth ih =>
      obtain ⟨depth', rfl⟩ := Nat.exists_eq_succ_of_ne_zero (Nat.ne_zero_of_lt h)
      exact (ih (Nat.le_of_succ_le_succ h)).outer

end WebIdl
end FeatureProbes
