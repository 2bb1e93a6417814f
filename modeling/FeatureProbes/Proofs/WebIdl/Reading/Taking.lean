import FeatureProbes.Proofs.WebIdl.Reading.Statements
import FeatureProbes.WebIdl.Parser.Definition

/-!
# What readers take

A reader that succeeds takes a row of tokens from the front and leaves the others.  What the row
looks like is said together with what stands behind it and with the value that is read, and may
depend on what the reader finds at first.

Types, arguments and extended attributes are balanced rows: where a reader goes past a bracket that
opens, it goes on to the one that closes it.
-/

namespace FeatureProbes
namespace WebIdl
namespace Parser

variable {α β : Type}

/-- Where a reader may stand when nothing is known of the tokens at hand. -/
def anywhere (_ : List Placed) : Prop := True

/-- Where the guard holds, a reader that succeeds takes tokens from the front. -/
def Takes (guard : List Placed → Prop) (p : Parser α)
    (shape : (taken behind : List Placed) → α → Prop) : Prop :=
  ∀ placed found rest, guard placed → p (placed.map Placed.token) = .ok (found, rest) →
    ∃ taken behind, placed = taken ++ behind ∧ rest = behind.map Placed.token ∧
      shape taken behind found

/-- A reader takes a row in which brackets match. -/
def TakesBalanced (inside : List String) (p : Parser α) : Prop :=
  Takes anywhere p fun taken _ _ => Balanced inside taken

/-- A reader takes a row that goes on past a closing mark. -/
def TakesClosing (closing : String) (inside : List String) (p : Parser α) : Prop :=
  Takes anywhere p fun taken _ _ => ∃ inner last more, taken = inner ++ last :: more ∧
    Balanced [] inner ∧ last.token.isMark closing = true ∧ Balanced inside more

/-- A row in which brackets match, and a semicolon. -/
def IsStatement (inside : List String) (taken : List Placed) : Prop :=
  ∃ row last, taken = row ++ [last] ∧ Balanced inside row ∧ last.token.isMark ";" = true

def TakesStatement (inside : List String) (p : Parser α) : Prop :=
  Takes anywhere p fun taken _ _ => IsStatement inside taken

section Rules

variable {guard guard' : List Placed → Prop} {inside : List String} {closing : String}
  {p : Parser α} {after : α → Parser β}
  {shape shape' : (taken behind : List Placed) → α → Prop}
  {whole : (taken behind : List Placed) → β → Prop}

theorem Takes.mono
    (h : Takes guard p shape)
    (hguard : ∀ placed, guard' placed → guard placed)
    (hshape : ∀ taken behind found, guard' (taken ++ behind) → shape taken behind found →
      shape' taken behind found) :
    Takes guard' p shape' := by
  intro placed found rest hat hrun
  obtain ⟨taken, behind, rfl, hrest, htaken⟩ := h placed found rest (hguard placed hat) hrun
  exact ⟨taken, behind, rfl, hrest, hshape taken behind found hat htaken⟩

theorem Takes.at
    (h : Takes anywhere p shape) :
    Takes guard p shape :=
  h.mono (fun _ _ => trivial) fun _ _ _ _ htaken => htaken

theorem Takes.bind
    (h : Takes guard p shape)
    (hafter : ∀ found one, Takes (fun behind => guard (one ++ behind) ∧ shape one behind found)
      (after found) fun two => whole (one ++ two)) :
    Takes guard (p >>= after) whole := by
  intro placed value rest hat hrun
  change Except.bind (p (placed.map Placed.token)) _ = _ at hrun
  cases hfirst : p (placed.map Placed.token) with
  | error stop =>
      rw [hfirst] at hrun
      cases hrun
  | ok read =>
      obtain ⟨found, between⟩ := read
      rw [hfirst] at hrun
      obtain ⟨one, behind, rfl, rfl, hone⟩ := h _ _ _ hat hfirst
      obtain ⟨two, behind', rfl, hrest, htwo⟩ := hafter found one _ value rest ⟨hat, hone⟩ hrun
      exact ⟨one ++ two, behind', (List.append_assoc one two behind').symm, hrest, htwo⟩

theorem takes_pure
    {found : α}
    (h : ∀ placed, guard placed → shape [] placed found) :
    Takes guard (pure found) shape := by
  intro placed value rest hat hrun
  cases hrun
  exact ⟨[], placed, rfl, rfl, h placed hat⟩

theorem Takes.last
    {f : α → β}
    (h : Takes guard p shape)
    (hwhole : ∀ taken behind found, shape taken behind found → whole taken behind (f found)) :
    Takes guard (do return f (← p)) whole := by
  refine Takes.bind h fun found one => takes_pure fun behind hat => ?_
  rw [List.append_nil]
  exact hwhole one behind found hat.2

theorem takes_error
    (h : ∀ tokens, ∃ stop, p tokens = .error stop) :
    Takes guard p shape := by
  intro placed value rest hat hrun
  obtain ⟨stop, hstop⟩ := h (placed.map Placed.token)
  rw [hstop] at hrun
  cases hrun

theorem takes_unexpected
    (expectation : Expectation) :
    Takes guard (unexpected expectation : Parser α) shape :=
  takes_error fun _ => ⟨_, rfl⟩

/-- A reader that only looks takes nothing. -/
theorem takes_look
    {view : List Token → α} :
    Takes guard (do return view (← get)) fun taken behind found =>
      taken = [] ∧ view (behind.map Placed.token) = found := by
  intro placed found rest hat hrun
  cases hrun
  exact ⟨[], placed, rfl, rfl, rfl, rfl⟩

/-- What a reader sees at first, it knows later. -/
theorem Takes.look
    {view : List Token → α}
    (h : ∀ found, Takes (fun placed => guard placed ∧ view (placed.map Placed.token) = found)
      (after found) whole) :
    Takes guard ((do return view (← get)) >>= after) whole := by
  refine Takes.bind takes_look fun found one => Takes.mono (h found) ?_ ?_
  · rintro placed ⟨hat, rfl, hview⟩
    exact ⟨hat, hview⟩
  · rintro taken behind value ⟨-, rfl, -⟩ htaken
    exact htaken

theorem takes_modify
    {f : List Token → List Token} {shape : (taken behind : List Placed) → Unit → Prop}
    (h : ∀ placed, guard placed → ∃ taken behind, placed = taken ++ behind ∧
      f (placed.map Placed.token) = behind.map Placed.token ∧ shape taken behind ()) :
    Takes guard (modify f) shape := by
  intro placed found rest hat hrun
  cases hrun
  exact h placed hat

theorem Takes.ite
    {other : Parser α} {condition : Bool}
    (h : condition = true → Takes guard p shape)
    (hother : condition = false → Takes guard other shape) :
    Takes guard (if condition then p else other) shape := by
  cases condition with
  | true =>
      exact h rfl
  | false =>
      exact hother rfl

/-! ## Balanced rows -/

theorem TakesBalanced.mono
    {fewer : List String}
    (h : TakesBalanced inside p)
    (hfewer : fewer ⊆ inside) :
    TakesBalanced fewer p :=
  Takes.mono h (fun _ hat => hat) fun _ _ _ _ htaken => htaken.mono hfewer

theorem takesBalanced_pure
    (found : α) :
    TakesBalanced inside (pure found) :=
  takes_pure fun _ _ => balanced_nil

theorem Takes.bind_balanced
    (h : Takes guard p fun taken _ _ => Balanced inside taken)
    (hafter : ∀ found, TakesBalanced inside (after found)) :
    Takes guard (p >>= after) fun taken _ _ => Balanced inside taken :=
  Takes.bind h fun found _ => Takes.mono (hafter found) (fun _ _ => trivial)
    fun _ _ _ hat htwo => hat.2.append htwo

theorem TakesBalanced.bind
    (h : TakesBalanced inside p)
    (hafter : ∀ found, TakesBalanced inside (after found)) :
    TakesBalanced inside (p >>= after) :=
  Takes.bind_balanced h hafter

theorem TakesBalanced.ite
    {other : Parser α}
    (condition : Bool)
    (h : TakesBalanced inside p)
    (hother : TakesBalanced inside other) :
    TakesBalanced inside (if condition then p else other) :=
  Takes.ite (fun _ => h) (fun _ => hother)

theorem takesBalanced_look
    {view : List Token → α} :
    TakesBalanced inside (do return view (← get)) := by
  refine takes_look.mono (fun _ hat => hat) fun taken _ _ _ hlook => ?_
  rw [hlook.1]
  exact balanced_nil

/-- Behind a closing mark a row goes on. -/
theorem TakesBalanced.bind_closing
    (h : TakesBalanced [] p)
    (hafter : ∀ found, TakesClosing closing inside (after found)) :
    TakesClosing closing inside (p >>= after) := by
  refine Takes.bind h fun found one => Takes.mono (hafter found) (fun _ _ => trivial) ?_
  rintro taken behind value ⟨-, hone⟩ ⟨inner, last, more, rfl, hinner, hlast, hmore⟩
  exact ⟨one ++ inner, last, more, by rw [List.append_assoc], hone.append hinner, hlast, hmore⟩

theorem TakesClosing.bind
    (h : TakesClosing closing inside p)
    (hafter : ∀ found, TakesBalanced inside (after found)) :
    TakesClosing closing inside (p >>= after) := by
  refine Takes.bind h fun found one => Takes.mono (hafter found) (fun _ _ => trivial) ?_
  rintro taken behind value ⟨-, inner, last, more, rfl, hinner, hlast, hmore⟩ htaken
  exact ⟨inner, last, more ++ taken, by simp, hinner, hlast, hmore.append htaken⟩

theorem Takes.bind_statement
    (h : Takes guard p fun taken _ _ => Balanced inside taken)
    (hafter : ∀ found, TakesStatement inside (after found)) :
    Takes guard (p >>= after) fun taken _ _ => IsStatement inside taken := by
  refine Takes.bind h fun found one => Takes.mono (hafter found) (fun _ _ => trivial) ?_
  rintro taken behind value ⟨-, hone⟩ ⟨row, last, rfl, hrow, hlast⟩
  exact ⟨one ++ row, last, by rw [List.append_assoc], hone.append hrow, hlast⟩

theorem TakesBalanced.bind_statement
    (h : TakesBalanced inside p)
    (hafter : ∀ found, TakesStatement inside (after found)) :
    TakesStatement inside (p >>= after) :=
  Takes.bind_statement h hafter

theorem TakesStatement.last
    {f : α → β}
    (h : TakesStatement inside p) :
    TakesStatement inside (do return f (← p)) :=
  Takes.last h fun _ _ _ htaken => htaken

theorem TakesStatement.ite
    {other : Parser α}
    (condition : Bool)
    (h : TakesStatement inside p)
    (hother : TakesStatement inside other) :
    TakesStatement inside (if condition then p else other) :=
  Takes.ite (fun _ => h) (fun _ => hother)

end Rules

/-! ## Single tokens -/

section Tokens

variable {guard : List Placed → Prop} {inside : List String} {mark : String}

theorem any_head?_map
    (p : Token → Bool)
    (placed : List Placed) :
    (placed.map Placed.token).head?.any p = placed.head?.any fun first => p first.token := by
  rw [List.head?_map, Option.any_map]

theorem takes_skip
    {p : Token → Prop}
    (h : ∀ placed, guard placed → ∃ first ∈ placed.head?, p first.token) :
    Takes guard skip fun taken _ _ => ∃ first, taken = [first] ∧ p first.token := by
  refine takes_modify fun placed hat => ?_
  obtain ⟨first, hfirst, hp⟩ := h placed hat
  obtain ⟨behind, rfl⟩ := List.head?_eq_some_iff.1 hfirst
  exact ⟨[first], behind, rfl, rfl, first, rfl, hp⟩

theorem takesBalanced_skip
    (h : ∀ placed, guard placed → ∃ first ∈ placed.head?, first.token.kind ≠ .mark) :
    Takes guard skip fun taken _ _ => Balanced inside taken := by
  refine (takes_skip (p := fun token => token.kind ≠ .mark) h).mono (fun _ hat => hat) ?_
  rintro taken behind found - ⟨first, rfl, hfirst⟩
  exact balanced_of_kind hfirst

/-- A reader that goes past one token if it is of some kind. -/
theorem takes_eat
    {look : Parser Bool} {p : Token → Bool}
    (hlook : look = do return (← get).head?.any p) :
    Takes guard
      (do
        if ← look then
          skip
          return true
        else return false)
      fun taken behind found =>
        (found = true ∧ ∃ first, taken = [first] ∧ p first.token = true) ∨
          (found = false ∧ taken = [] ∧ ∀ first ∈ behind.head?, p first.token = false) := by
  subst hlook
  refine Takes.bind takes_look fun found one => Takes.ite (fun hfound => ?_) fun hfound => ?_
  · refine Takes.bind (takes_skip (p := fun token => p token = true) fun placed hat => ?_)
      fun _ two => takes_pure fun behind hat => ?_
    · obtain ⟨-, -, hany⟩ := hat
      rw [hfound, any_head?_map, Option.any_eq_true] at hany
      exact hany
    · obtain ⟨⟨-, rfl, -⟩, first, rfl, hfirst⟩ := hat
      exact Or.inl ⟨rfl, first, rfl, hfirst⟩
  · refine takes_pure fun behind hat => Or.inr ⟨rfl, ?_, ?_⟩
    · rw [hat.2.1]
      rfl
    · obtain ⟨-, -, hany⟩ := hat
      rw [hfound, any_head?_map, Option.any_eq_false] at hany
      intro first hfirst
      simpa using hany first hfirst

theorem takes_eatMark
    (mark : String) :
    Takes guard (eatMark mark) fun taken behind found =>
      (found = true ∧ ∃ first, taken = [first] ∧ first.token.isMark mark = true) ∨
        (found = false ∧ taken = [] ∧ ∀ first ∈ behind.head?, first.token.isMark mark = false) :=
  takes_eat rfl

theorem takes_eatWord
    (word : String) :
    Takes guard (eatWord word) fun taken behind found =>
      (found = true ∧ ∃ first, taken = [first] ∧ first.token.isWord word = true) ∨
        (found = false ∧ taken = [] ∧ ∀ first ∈ behind.head?, first.token.isWord word = false) :=
  takes_eat rfl

theorem kind_of_isWord
    {token : Token} {word : String}
    (h : token.isWord word = true) :
    token.kind ≠ .mark := by
  rw [Token.isWord, Bool.and_eq_true] at h
  rintro hkind
  rw [Token.isName, hkind] at h
  cases h.1

theorem kind_of_isName
    {token : Token}
    (h : token.isName = true) :
    token.kind ≠ .mark := by
  rintro hkind
  rw [Token.isName, hkind] at h
  cases h

theorem takesBalanced_eatMark
    (hmark : mark ∉ brackets ++ inside) :
    TakesBalanced inside (eatMark mark) := by
  refine (takes_eatMark mark).mono (fun _ hat => hat) ?_
  rintro taken behind found - (⟨-, first, rfl, hfirst⟩ | ⟨-, rfl, -⟩)
  · exact balanced_mark hfirst hmark
  · exact balanced_nil

theorem takesBalanced_eatWord
    (word : String) :
    TakesBalanced inside (eatWord word) := by
  refine (takes_eatWord word).mono (fun _ hat => hat) ?_
  rintro taken behind found - (⟨-, first, rfl, hfirst⟩ | ⟨-, rfl, -⟩)
  · exact balanced_of_kind (kind_of_isWord hfirst)
  · exact balanced_nil

theorem takes_expectMark
    (mark : String) :
    Takes guard (expectMark mark) fun taken _ _ =>
      ∃ first, taken = [first] ∧ first.token.isMark mark = true := by
  refine Takes.bind (takes_eatMark mark) fun found one => ?_
  refine Takes.ite (fun _ => takes_unexpected _) fun hfound => takes_pure fun behind hat => ?_
  rw [Bool.not_eq_false'] at hfound
  rw [List.append_nil]
  rcases hat.2 with ⟨-, h⟩ | ⟨hnone, -⟩
  · exact h
  · rw [hfound] at hnone
    cases hnone

theorem takesBalanced_expectMark
    (hmark : mark ∉ brackets ++ inside) :
    TakesBalanced inside (expectMark mark) := by
  refine (takes_expectMark mark).mono (fun _ hat => hat) ?_
  rintro taken behind found - ⟨first, rfl, hfirst⟩
  exact balanced_mark hfirst hmark

/-- A reader that takes one token that is no mark. -/
theorem takes_token
    {α : Type} {p : Token → Bool} {f : Token → α} {other : Parser α}
    (hp : ∀ token, p token = true → token.kind ≠ .mark)
    (hother : ∀ tokens, ∃ stop, other tokens = .error stop) :
    Takes guard
      (fun tokens =>
        match tokens with
        | [] => other tokens
        | token :: rest => if p token then .ok (f token, rest) else other tokens)
      fun taken _ _ => ∃ first, taken = [first] ∧ first.token.kind ≠ .mark := by
  intro placed found rest hat hrun
  cases placed with
  | nil =>
      obtain ⟨stop, hstop⟩ := hother []
      exact absurd (hstop.symm.trans hrun) nofun
  | cons first behind =>
      by_cases hfirst : p first.token = true
      · rw [List.map_cons] at hrun
        dsimp only at hrun
        rw [if_pos hfirst] at hrun
        cases hrun
        exact ⟨[first], behind, rfl, rfl, first, rfl, hp _ hfirst⟩
      · obtain ⟨stop, hstop⟩ := hother ((first :: behind).map Placed.token)
        rw [List.map_cons] at hrun hstop
        dsimp only at hrun
        rw [if_neg hfirst, hstop] at hrun
        cases hrun

theorem balanced_of_token
    {α : Type} {p : Parser α}
    (h : Takes anywhere p fun taken _ _ => ∃ first, taken = [first] ∧ first.token.kind ≠ .mark) :
    TakesBalanced inside p := by
  refine h.mono (fun _ hat => hat) ?_
  rintro taken behind found - ⟨first, rfl, hfirst⟩
  exact balanced_of_kind hfirst

theorem takes_identifier :
    Takes guard identifier fun taken _ _ => ∃ first, taken = [first] ∧ first.token.kind ≠ .mark :=
  takes_token (fun _ => kind_of_isName) fun _ => ⟨_, rfl⟩

theorem takesBalanced_identifier :
    TakesBalanced inside identifier :=
  balanced_of_token takes_identifier

theorem kind_of_beq
    {token : Token} {kind : TokenKind}
    (hkind : kind ≠ .mark)
    (h : (token.kind == kind) = true) :
    token.kind ≠ .mark := by
  rw [beq_iff_eq.1 h]
  exact hkind

theorem takesBalanced_stringValue :
    TakesBalanced inside stringValue :=
  balanced_of_token (takes_token (fun _ => kind_of_beq (by decide)) fun _ => ⟨_, rfl⟩)

theorem balanced_of_forall_kind
    {row : List Placed}
    (h : ∀ placed ∈ row, placed.token.kind ≠ .mark) :
    Balanced inside row := by
  induction row with
  | nil =>
      exact balanced_nil
  | cons first row ih =>
      rw [List.forall_mem_cons] at h
      exact (balanced_of_kind h.1).append (ih h.2)

theorem takesBalanced_dropWhile
    {p : Token → Bool}
    (hp : ∀ token, p token = true → token.kind ≠ .mark) :
    TakesBalanced inside (modify fun tokens => tokens.dropWhile p) := by
  refine takes_modify fun placed _ => ⟨placed.takeWhile fun first => p first.token,
    placed.dropWhile fun first => p first.token, List.takeWhile_append_dropWhile.symm, ?_, ?_⟩
  · rw [List.dropWhile_map]
    rfl
  · exact balanced_of_forall_kind fun first hfirst =>
      hp _ (List.all_eq_true.1 List.all_takeWhile first hfirst)

theorem takesBalanced_eatWords
    (word : String) :
    TakesBalanced inside (eatWords word) := by
  refine TakesBalanced.bind takesBalanced_look fun found => ?_
  refine TakesBalanced.bind (takesBalanced_dropWhile fun _ => kind_of_isWord) fun _ => ?_
  exact takesBalanced_pure found

end Tokens

/-! ## Brackets -/

section Brackets

variable {inside : List String} {opening closing : String} {α β : Type} {p : Parser α}
  {after : Unit → Parser α}

/-- Marks that enclose a row, and may stand where some marks may not. -/
def Matches (opening closing : String) (inside : List String) : Prop :=
  opening ∈ ["(", "[", "\x7b"] ∧ closing ∈ [")", "]", "\x7d"] ∧ opening ∉ inside ∧ closing ∉ inside

instance (opening closing : String) (inside : List String) :
    Decidable (Matches opening closing inside) :=
  inferInstanceAs (Decidable (_ ∧ _ ∧ _ ∧ _))

theorem Matches.balanced
    (h : Matches opening closing inside)
    {first last : Placed} {inner more : List Placed}
    (hfirst : first.token.isMark opening = true)
    (hinner : Balanced [] inner)
    (hlast : last.token.isMark closing = true)
    (hmore : Balanced inside more) :
    Balanced inside (first :: (inner ++ last :: more)) := by
  obtain ⟨hopening, hclosing, hin, hin'⟩ := h
  have hencloses := encloses_of_isMark hfirst hlast (List.contains_iff_mem.2 hopening)
    (List.contains_iff_mem.2 hclosing)
  have hrow : Balanced inside (first :: (inner ++ [last])) := by
    refine hencloses.balanced hinner (fun mark hmark => ?_) fun mark hmark => ?_
    · rw [Token.isMark_eq hfirst, beq_eq_false_iff_ne]
      exact (ne_of_mem_of_not_mem hmark hin).symm
    · rw [Token.isMark_eq hlast, beq_eq_false_iff_ne]
      exact (ne_of_mem_of_not_mem hmark hin').symm
  simpa using hrow.append hmore

theorem takesClosing_expectMark
    (closing : String)
    (hafter : ∀ found, TakesBalanced inside (after found)) :
    TakesClosing closing inside (expectMark closing >>= after) := by
  refine Takes.bind (takes_expectMark closing) fun found one =>
    Takes.mono (hafter found) (fun _ _ => trivial) ?_
  rintro taken behind value ⟨-, last, rfl, hlast⟩ htaken
  exact ⟨[], last, taken, rfl, balanced_nil, hlast, htaken⟩

/-- Where an opening mark is expected, a row goes on past the closing one. -/
theorem TakesClosing.expect
    (h : TakesClosing closing inside (after ()))
    (hmatches : Matches opening closing inside) :
    TakesBalanced inside (expectMark opening >>= after) := by
  refine Takes.bind (takes_expectMark opening) fun found one =>
    Takes.mono h (fun _ _ => trivial) ?_
  rintro taken behind value ⟨-, first, rfl, hfirst⟩ ⟨inner, last, more, rfl, hinner, hlast, hmore⟩
  exact hmatches.balanced hfirst hinner hlast hmore

/-- Where an opening mark is found, a row goes on past the closing one. -/
theorem TakesClosing.eat
    {after : Bool → Parser α}
    (h : TakesClosing closing inside (after true))
    (hmatches : Matches opening closing inside)
    (hother : TakesBalanced inside (after false)) :
    TakesBalanced inside (eatMark opening >>= after) := by
  refine Takes.bind (takes_eatMark opening) fun found one => ?_
  cases found with
  | true =>
      refine Takes.mono h (fun _ _ => trivial) ?_
      rintro taken behind value ⟨-, hone⟩ ⟨inner, last, more, rfl, hinner, hlast, hmore⟩
      rcases hone with ⟨-, first, rfl, hfirst⟩ | ⟨hfalse, -⟩
      · exact hmatches.balanced hfirst hinner hlast hmore
      · cases hfalse
  | false =>
      refine Takes.mono hother (fun _ _ => trivial) ?_
      rintro taken behind value ⟨-, hone⟩ htaken
      rcases hone with ⟨htrue, -⟩ | ⟨-, rfl, -⟩
      · cases htrue
      · exact htaken

end Brackets

/-! ## Rows -/

section Rows

variable {inside : List String} {α : Type} {item : Parser α}

theorem takesBalanced_commaListWithin
    {closing : String}
    (hcomma : "," ∉ brackets ++ inside)
    (hitem : TakesBalanced inside item)
    (rounds : Nat) :
    TakesBalanced inside (commaListWithin closing item rounds) := by
  induction rounds with
  | zero =>
      exact takes_error fun _ => ⟨_, rfl⟩
  | succ rounds ih =>
      refine takesBalanced_look.bind fun ended => ?_
      refine TakesBalanced.ite ended (takesBalanced_pure _) ?_
      refine hitem.bind fun first => ?_
      refine (takesBalanced_eatMark hcomma).bind fun more => ?_
      exact TakesBalanced.ite more (ih.bind fun _ => takesBalanced_pure _) (takesBalanced_pure _)

theorem takes_commaList
    (closing : String)
    (hcomma : "," ∉ brackets ++ inside)
    (hitem : TakesBalanced inside item) :
    Takes anywhere (commaList closing item) fun taken _ _ => ∃ inner last, taken = inner ++ [last] ∧
      Balanced inside inner ∧ last.token.isMark closing = true := by
  refine Takes.look fun tokens => ?_
  refine Takes.bind (Takes.at (takesBalanced_commaListWithin hcomma hitem _)) fun items inner => ?_
  refine Takes.bind (takes_expectMark closing) fun _ one => takes_pure fun behind hat => ?_
  obtain ⟨⟨-, hinner⟩, last, rfl, hlast⟩ := hat
  exact ⟨inner, last, by rw [List.append_nil], hinner, hlast⟩

theorem takesClosing_commaList
    (closing : String)
    (hitem : TakesBalanced [] item) :
    TakesClosing closing inside (commaList closing item) := by
  refine (takes_commaList closing (by decide) hitem).mono (fun _ hat => hat) ?_
  rintro taken behind found - ⟨inner, last, rfl, hinner, hlast⟩
  exact ⟨inner, last, [], rfl, hinner, hlast, balanced_nil⟩

theorem takesBalanced_moreWithin
    {separator : Parser Bool}
    (hseparator : TakesBalanced inside separator)
    (hitem : TakesBalanced inside item)
    (rounds : Nat) :
    TakesBalanced inside (moreWithin separator item rounds) := by
  induction rounds with
  | zero =>
      exact takes_error fun _ => ⟨_, rfl⟩
  | succ rounds ih =>
      refine hseparator.bind fun more => ?_
      refine TakesBalanced.ite more ?_ (takesBalanced_pure _)
      exact hitem.bind fun first => ih.bind fun _ => takesBalanced_pure _

theorem takesBalanced_separated
    {separator : Parser Bool}
    (hseparator : TakesBalanced inside separator)
    (hitem : TakesBalanced inside item) :
    TakesBalanced inside (separated separator item) := by
  refine hitem.bind fun first => takesBalanced_look.bind fun tokens => ?_
  exact (takesBalanced_moreWithin hseparator hitem _).bind fun _ => takesBalanced_pure _

/-- Rows one behind the other, one for each value. -/
inductive Rows (shape : List Placed → α → Prop) : List Placed → List α → Prop
  | nil :
      Rows shape [] []
  | cons
      {row more : List Placed} {found : α} {others : List α}
      (hrow : shape row found)
      (hmore : Rows shape more others) :
      Rows shape (row ++ more) (found :: others)

theorem takes_untilWithin
    {ends : Parser Bool} {stop : List Placed → Prop} {shape : List Placed → α → Prop}
    (hends : Takes anywhere ends fun taken behind found =>
      taken = [] ∧ (found = true → stop behind))
    (hitem : Takes anywhere item fun taken _ found => shape taken found)
    (rounds : Nat) :
    Takes anywhere (untilWithin ends item rounds) fun taken behind found =>
      Rows shape taken found ∧ stop behind := by
  induction rounds with
  | zero =>
      exact takes_error fun _ => ⟨_, rfl⟩
  | succ rounds ih =>
      refine Takes.bind hends fun ended one => Takes.ite (fun hended => ?_) fun _ => ?_
      · refine takes_pure fun behind hat => ?_
        obtain ⟨-, rfl, hstop⟩ := hat
        exact ⟨.nil, hstop hended⟩
      · refine Takes.bind hitem.at fun first two => ?_
        refine Takes.bind ih.at fun others three => takes_pure fun behind hat => ?_
        obtain ⟨⟨⟨-, rfl, -⟩, hfirst⟩, hothers, hstop⟩ := hat
        rw [List.append_nil, List.nil_append]
        exact ⟨.cons hfirst hothers, hstop⟩

theorem takes_itemsUntil
    {ends : Parser Bool} {stop : List Placed → Prop} {shape : List Placed → α → Prop}
    (hends : Takes anywhere ends fun taken behind found =>
      taken = [] ∧ (found = true → stop behind))
    (hitem : Takes anywhere item fun taken _ found => shape taken found) :
    Takes anywhere (itemsUntil ends item) fun taken behind found =>
      Rows shape taken found ∧ stop behind := by
  refine Takes.bind takes_look fun tokens one => ?_
  refine Takes.mono (takes_untilWithin hends hitem _) (fun _ _ => trivial) ?_
  rintro taken behind found ⟨-, rfl, -⟩ htaken
  exact htaken

end Rows

/-! ## Types, arguments and extended attributes -/

/-- The marks that end statements and open blocks. -/
def statementMarks : List String :=
  [";", "\x7b"]

/-- A default value may be a pair of braces. -/
theorem takesBalanced_defaultValue :
    TakesBalanced [";"] defaultValue := by
  have hclosing : ∀ closing, TakesClosing closing [";"] (expectMark closing) := by
    intro closing
    have h : TakesClosing closing [";"] (expectMark closing >>= pure) :=
      takesClosing_expectMark closing takesBalanced_pure
    rwa [bind_pure] at h
  refine (hclosing "]").eat (by decide) ?_
  refine (hclosing "\x7d").eat (by decide) ?_
  refine Takes.look fun isName => Takes.look fun isInteger => ?_
  refine Takes.look fun isDecimal => Takes.look fun isString => ?_
  refine Takes.ite (fun hvalue => ?_) fun _ => takes_unexpected _
  refine takesBalanced_skip fun placed hat => ?_
  obtain ⟨⟨⟨⟨-, rfl⟩, rfl⟩, rfl⟩, rfl⟩ := hat
  cases placed with
  | nil =>
      cases hvalue
  | cons first behind =>
      refine ⟨first, rfl, fun hkind => ?_⟩
      simp [Token.isName, hkind] at hvalue

/-- Extended attributes are taken, or there are none. -/
def TakesAttributes (p : Parser α) : Prop :=
  Takes anywhere p fun taken behind _ => IsAttributeRow taken ∧
    (taken = [] → ∀ first ∈ behind.head?, first.token.isMark "[" = false)

theorem TakesAttributes.balanced
    {p : Parser α}
    (h : TakesAttributes p) :
    TakesBalanced statementMarks p :=
  Takes.mono h (fun _ hat => hat) fun _ _ _ _ htaken => htaken.1.balanced

end Parser

/-- Readers of nested constructs that take balanced rows. -/
structure Nested.TakesRows (nested : Nested) : Prop where
  type : Parser.TakesBalanced Parser.statementMarks nested.type
  attributes : Parser.TakesAttributes nested.attributes

namespace Parser

section Types

variable {inner : Parser IdlType} {nested : Nested}

theorem takesBalanced_typeParameters
    (hinner : TakesBalanced statementMarks inner) :
    TakesBalanced statementMarks (typeParameters inner) := by
  refine (takesBalanced_expectMark (by decide)).bind fun _ => ?_
  refine (takesBalanced_separated (takesBalanced_eatMark (by decide)) hinner).bind fun args => ?_
  exact (takesBalanced_expectMark (by decide)).bind fun _ => takesBalanced_pure _

theorem takesBalanced_namedType
    (hinner : TakesBalanced statementMarks inner) :
    TakesBalanced statementMarks (namedType inner) := by
  have hlong : ∀ first second : IdlType, TakesBalanced statementMarks
      (do if ← eatWord "long" then return first else return second) := fun first second =>
    (takesBalanced_eatWord "long").bind fun again =>
      TakesBalanced.ite again (takesBalanced_pure _) (takesBalanced_pure _)
  refine takesBalanced_identifier.bind fun first => ?_
  refine TakesBalanced.ite _ ?_ (TakesBalanced.ite _ ?_ (TakesBalanced.ite _ (hlong _ _)
    (TakesBalanced.ite _ ?_ (takesBalanced_pure _))))
  · refine takesBalanced_identifier.bind fun rest => ?_
    exact TakesBalanced.ite _ (hlong _ _) (takesBalanced_pure _)
  · exact takesBalanced_identifier.bind fun rest => takesBalanced_pure _
  · refine takesBalanced_look.bind fun opened => ?_
    refine TakesBalanced.ite opened ?_ (takesBalanced_pure _)
    exact (takesBalanced_typeParameters hinner).bind fun args => takesBalanced_pure _

theorem takesBalanced_type
    (h : nested.TakesRows) :
    TakesBalanced statementMarks (type nested) := by
  have hplain : ∀ plain : IdlType, TakesBalanced statementMarks
      (do if ← eatMark "?" then return .nullable plain else return plain) := fun plain =>
    (takesBalanced_eatMark (by decide)).bind fun given =>
      TakesBalanced.ite given (takesBalanced_pure _) (takesBalanced_pure _)
  refine h.attributes.balanced.bind fun _ => ?_
  have hrow : TakesBalanced [] (separated (eatWord "or") nested.type) :=
    takesBalanced_separated (takesBalanced_eatWord "or") (h.type.mono (by decide))
  have hunion : ∀ types, TakesClosing ")" statementMarks (do
      expectMark ")"
      let plain ← pure (IdlType.union types)
      if ← eatMark "?" then return .nullable plain else return plain) := fun types =>
    takesClosing_expectMark ")" fun _ => (takesBalanced_pure _).bind hplain
  exact (hrow.bind_closing hunion).eat (by decide)
    ((takesBalanced_namedType h.type).bind hplain)

theorem takesBalanced_argument
    (h : nested.TakesRows) :
    TakesBalanced [";"] (argument nested) := by
  refine (h.attributes.balanced.mono (by decide)).bind fun _ => ?_
  refine (takesBalanced_eatWord "optional").bind fun optional => ?_
  refine (h.type.mono (by decide)).bind fun type => ?_
  refine Takes.look fun variadic => ?_
  have hname : TakesBalanced [";"] (do
      let name ← identifier
      if ← eatMark "=" then defaultValue
      return (⟨name, type, optional, variadic⟩ : Argument)) := by
    refine takesBalanced_identifier.bind fun name => ?_
    refine (takesBalanced_eatMark (by decide)).bind fun given => ?_
    exact TakesBalanced.ite given (takesBalanced_defaultValue.bind fun _ => takesBalanced_pure _)
      (takesBalanced_pure _)
  refine Takes.ite (fun hvariadic => ?_) fun _ => Takes.at hname
  refine Takes.bind_balanced (takesBalanced_skip fun placed hat => ?_) fun _ => hname
  obtain ⟨-, hview⟩ := hat
  rw [hvariadic, any_head?_map, Option.any_eq_true] at hview
  obtain ⟨first, hfirst, hkind⟩ := hview
  exact ⟨first, hfirst, kind_of_beq (by decide) hkind⟩

theorem takesBalanced_arguments
    (h : nested.TakesRows) :
    TakesBalanced statementMarks (arguments nested) :=
  TakesClosing.expect (takesClosing_commaList ")" ((takesBalanced_argument h).mono (by decide)))
    (by decide)

theorem takesBalanced_listedName :
    TakesBalanced [] listedName :=
  balanced_of_token (takes_token (fun _ => kind_of_isName) fun _ => ⟨_, rfl⟩)

theorem takesBalanced_listedString :
    TakesBalanced [] listedString :=
  balanced_of_token (takes_token (fun _ => kind_of_beq (by decide)) fun _ => ⟨_, rfl⟩)

theorem takesClosing_valueList :
    TakesClosing ")" [] valueList := by
  refine takesBalanced_look.bind_closing fun isString => ?_
  refine Takes.ite (fun _ => ?_) fun _ => ?_
  · exact (takesClosing_commaList ")" takesBalanced_listedString).bind fun _ => takesBalanced_pure _
  · exact (takesClosing_commaList ")" takesBalanced_listedName).bind fun _ => takesBalanced_pure _

theorem takesBalanced_plainValue
    (name : String) :
    TakesBalanced [] (plainValue name) := by
  intro placed found rest _ hrun
  cases placed with
  | nil =>
      cases hrun
  | cons first behind =>
      obtain ⟨before, kind, text, line⟩ := first
      cases kind with
      | mark =>
          cases hrun
      | ellipsis =>
          cases hrun
      | _ =>
          cases hrun
          exact ⟨[_], behind, rfl, rfl, balanced_of_kind (by simp)⟩

theorem takesBalanced_attributeValue
    (name : String) :
    TakesBalanced [] (attributeValue name) := by
  refine (takesBalanced_eatMark (by decide)).bind fun wildcard => ?_
  refine TakesBalanced.ite wildcard (takesBalanced_pure _) ?_
  exact takesClosing_valueList.eat (by decide) (takesBalanced_plainValue name)

theorem takesBalanced_extendedAttribute
    (h : nested.TakesRows) :
    TakesBalanced [] (extendedAttribute nested) := by
  have harguments : ∀ name value, TakesBalanced [] (do
      let arguments ← if ← atMark "(" then arguments nested else pure []
      return (⟨name, value, arguments⟩ : ExtendedAttribute)) := by
    intro name value
    refine takesBalanced_look.bind fun opened => ?_
    have hgiven : TakesBalanced [] (arguments nested) :=
      (takesBalanced_arguments h).mono (by decide)
    exact TakesBalanced.ite opened (hgiven.bind fun _ => takesBalanced_pure _)
      ((takesBalanced_pure _).bind fun _ => takesBalanced_pure _)
  refine takesBalanced_identifier.bind fun name => ?_
  refine (takesBalanced_eatMark (by decide)).bind fun given => ?_
  refine TakesBalanced.ite given ?_ ((takesBalanced_pure _).bind (harguments name))
  have hvalue : TakesBalanced [] (some <$> attributeValue name) := by
    rw [← bind_pure_comp]
    exact (takesBalanced_attributeValue name).bind fun _ => takesBalanced_pure _
  exact hvalue.bind (harguments name)

theorem takesAttributes_attributes
    (h : nested.TakesRows) :
    TakesAttributes (attributes nested) := by
  have hlist : TakesBalanced [] (separated (eatMark ",") (extendedAttribute nested)) :=
    takesBalanced_separated (takesBalanced_eatMark (by decide)) (takesBalanced_extendedAttribute h)
  refine Takes.bind (takes_eatMark "[") fun opened one => Takes.ite (fun hopened => ?_) fun hopened => ?_
  · refine Takes.bind (Takes.at hlist) fun list two => ?_
    refine Takes.bind (takes_expectMark "]") fun _ three => takes_pure fun behind hat => ?_
    obtain ⟨⟨⟨-, hone⟩, hinner⟩, last, rfl, hlast⟩ := hat
    rcases hone with ⟨-, first, rfl, hfirst⟩ | ⟨hfalse, -⟩
    · rw [List.append_nil, List.singleton_append]
      exact ⟨.brackets hfirst hinner hlast, nofun⟩
    · rw [hopened] at hfalse
      cases hfalse
  · refine takes_pure fun behind hat => ?_
    rcases hat.2 with ⟨htrue, -⟩ | ⟨-, rfl, hnone⟩
    · rw [hopened] at htrue
      cases htrue
    · exact ⟨.nil, fun _ => hnone⟩

end Types

end Parser

theorem Nested.takesRows_level
    (depth : Nat) :
    (Nested.level depth).TakesRows := by
  induction depth with
  | zero =>
      exact ⟨Parser.takes_error fun _ => ⟨_, rfl⟩, Parser.takes_error fun _ => ⟨_, rfl⟩⟩
  | succ depth ih =>
      have hattributes := Parser.takesAttributes_attributes ih
      exact ⟨Parser.takesBalanced_type ⟨ih.type, hattributes⟩, hattributes⟩

end WebIdl
end FeatureProbes
