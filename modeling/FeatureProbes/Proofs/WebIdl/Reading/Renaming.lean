import FeatureProbes.Proofs.WebIdl.Reading.Written

/-!
# Reading with other names

Readers of definitions look for some words: keywords, words of the names of types, and names that
take parameters.  All other names are alike to them.  Where names give way to other names, and no
name becomes or ceases to be a word that is looked for, a reader does the same as before and gives
the same value with the other names in it.  Neither the lines of tokens nor the low lines in front
of names make a difference.

A reader is compared with itself, or with another reader that is given renamed values.  There is a
rule for each way in which readers are put together, so a proof about a reader follows its text.
-/

namespace FeatureProbes
namespace WebIdl

/-- The words that readers look for. -/
def soughtWords : List String :=
  keywords ++ typeKeywords ++ Parser.genericNames

/-- A change of names that readers cannot notice.  Of the name of a type in several words, the words
are renamed. -/
structure Renaming where
  name : String → String
  name_eq_iff : ∀ word ∈ soughtWords, ∀ text, name text = word ↔ text = word
  name_unsigned : ∀ rest, name ("unsigned " ++ rest) = "unsigned " ++ name rest
  name_unrestricted : ∀ rest, name ("unrestricted " ++ rest) = "unrestricted " ++ name rest
  name_long_long : name "long long" = "long long"

namespace Renaming

/-- All names stay what they are. -/
def none : Renaming where
  name := id
  name_eq_iff := fun _ _ _ => Iff.rfl
  name_unsigned := fun _ => rfl
  name_unrestricted := fun _ => rfl
  name_long_long := rfl

variable (r : Renaming)

/-- A token with another name.  It loses its line, and the low line in front of it. -/
def token (token : Token) : Token :=
  match token.kind with
  | .name _ => ⟨.name false, r.name token.text, 0⟩
  | kind => ⟨kind, token.text, 0⟩

mutual

def type : IdlType → IdlType
  | .named name => .named (r.name name)
  | .generic name args => .generic name (types args)
  | .union items => .union (types items)
  | .nullable inner => .nullable (type inner)

def types : List IdlType → List IdlType
  | [] => []
  | first :: more => type first :: types more

end

def argument (argument : Argument) : Argument :=
  { argument with name := r.name argument.name, type := r.type argument.type }

def value : AttributeValue → AttributeValue
  | .identifier name => .identifier (r.name name)
  | .identifierList names => .identifierList (names.map r.name)
  | value => value

def extendedAttribute (item : ExtendedAttribute) : ExtendedAttribute :=
  ⟨r.name item.name, item.value.map r.value, item.arguments.map r.argument⟩

/-- A member with other names, and without its line. -/
def member (member : Member) : Member :=
  { member with
    name := member.name.map r.name
    type := member.type.map r.type
    arguments := member.arguments.map r.argument
    typeArgs := member.typeArgs.map r.type
    attributes := member.attributes.map r.extendedAttribute
    line := 0 }

/-- A definition with other names, and without its line and those of its members. -/
def definition (definition : Definition) : Definition :=
  { definition with
    name := r.name definition.name
    inheritance := definition.inheritance.map r.name
    members := definition.members.map r.member
    attributes := definition.attributes.map r.extendedAttribute
    included := definition.included.map r.name
    type := definition.type.map r.type
    arguments := definition.arguments.map r.argument
    line := 0 }

/-- What is wrong with a text, and what is wrong with the renamed one. -/
inductive Turns : SyntaxProblem → SyntaxProblem → Prop
  | same
      (problem : SyntaxProblem) :
      Turns problem problem
  | found
      (expectation : Expectation) (text : String) :
      Turns (.unexpected expectation (some text)) (.unexpected expectation (some (r.name text)))
  | invalidValue
      (name : String) :
      Turns (.invalidValue name) (.invalidValue (r.name name))

/-! ## Tokens -/

theorem types_eq_map
    (items : List IdlType) :
    r.types items = items.map r.type := by
  induction items with
  | nil =>
      rfl
  | cons first more ih =>
      rw [types, ih, List.map_cons]

@[simp] theorem isName_token
    (token : Token) :
    (r.token token).isName = token.isName := by
  obtain ⟨kind, text, line⟩ := token
  cases kind <;> rfl

@[simp] theorem isMark_token
    (token : Token)
    (mark : String) :
    (r.token token).isMark mark = token.isMark mark := by
  obtain ⟨kind, text, line⟩ := token
  cases kind <;> rfl

theorem isWord_token
    {word : String}
    (h : word ∈ soughtWords)
    (token : Token) :
    (r.token token).isWord word = token.isWord word := by
  obtain ⟨kind, text, line⟩ := token
  cases kind with
  | name marked =>
      have hiff := r.name_eq_iff word h text
      simp only [Renaming.token, Token.isWord, Token.isName, Bool.true_and]
      rw [Bool.eq_iff_iff, beq_iff_eq, beq_iff_eq, hiff]
  | _ =>
      rfl

theorem kind_token
    {kind : TokenKind}
    (h : ∀ marked, kind ≠ .name marked)
    (token : Token) :
    ((r.token token).kind == kind) = (token.kind == kind) := by
  obtain ⟨found, text, line⟩ := token
  cases found with
  | name marked =>
      rw [Bool.eq_iff_iff, beq_iff_eq, beq_iff_eq]
      exact ⟨fun heq => absurd heq.symm (h _), fun heq => absurd heq.symm (h _)⟩
  | _ =>
      rfl

theorem text_token_of_isName
    {token : Token}
    (h : token.isName = true) :
    (r.token token).text = r.name token.text := by
  obtain ⟨kind, text, line⟩ := token
  cases kind with
  | name marked =>
      rfl
  | _ =>
      cases h

theorem isName_of_kind
    {kind : TokenKind} {token : Token}
    (h : (token.kind == kind) = true)
    (hkind : ∀ marked, kind ≠ .name marked) :
    token.isName = false := by
  rw [beq_iff_eq] at h
  subst h
  rw [Token.isName]
  split
  · rename_i marked heq
    exact absurd heq (hkind marked)
  · rfl

theorem text_token_of_not_isName
    {token : Token}
    (h : token.isName = false) :
    (r.token token).text = token.text := by
  obtain ⟨kind, text, line⟩ := token
  cases kind with
  | name marked =>
      cases h
  | _ =>
      rfl

end Renaming

namespace Parser

variable {α α' β β' : Type} {r : Renaming}

/-- What a reader comes to, and what it comes to on renamed tokens. -/
inductive SameEnd (r : Renaming) (change : α → α') :
    Except Stop (α × List Token) → Except Stop (α' × List Token) → Prop
  | value
      (found : α) (rest : List Token) :
      SameEnd r change (.ok (found, rest)) (.ok (change found, rest.map r.token))
  | stop
      {stop stop' : Stop}
      (h : r.Turns stop.problem stop'.problem) :
      SameEnd r change (.error stop) (.error stop')

theorem SameEnd.eq_of_ok
    {change : α → α'} {read : α × List Token} {other : Except Stop (α' × List Token)}
    (h : SameEnd r change (.ok read) other) :
    other = .ok (change read.1, read.2.map r.token) := by
  cases h
  rfl

/-- A reader gives on renamed tokens what another one gives, up to a change of the value. -/
def Follows (r : Renaming) (change : α → α') (first : Parser α) (second : Parser α') : Prop :=
  ∀ tokens, SameEnd r change (first tokens) (second (tokens.map r.token))

section Rules

variable {change : α → α'} {change' : β → β'} {first : Parser α} {second : Parser α'}
  {after : α → Parser β} {after' : α' → Parser β'}

theorem Follows.bind
    (h : Follows r change first second)
    (hafter : ∀ found, Follows r change' (after found) (after' (change found))) :
    Follows r change' (first >>= after) (second >>= after') := by
  intro tokens
  have hend := h tokens
  change SameEnd r change' (Except.bind (first tokens) _) (Except.bind (second _) _)
  generalize first tokens = one at hend ⊢
  generalize second (tokens.map r.token) = two at hend ⊢
  cases hend with
  | value found rest =>
      exact hafter found rest
  | stop hstop =>
      exact .stop hstop

theorem follows_pure
    {found : α} {found' : α'}
    (h : change found = found') :
    Follows r change (pure found) (pure found') := by
  subst h
  exact fun tokens => .value found tokens

theorem Follows.last
    {f : α → β} {f' : α' → β'}
    (h : Follows r change first second)
    (hf : ∀ found, change' (f found) = f' (change found)) :
    Follows r change' (do return f (← first)) (do return f' (← second)) :=
  h.bind fun found => follows_pure (hf found)

theorem Follows.map
    {f : α → β} {f' : α' → β'}
    (h : Follows r change first second)
    (hf : ∀ found, change' (f found) = f' (change found)) :
    Follows r change' (f <$> first) (f' <$> second) := by
  rw [← bind_pure_comp, ← bind_pure_comp]
  exact h.last hf

theorem follows_get :
    Follows r (List.map r.token) get get :=
  fun tokens => .value tokens tokens

theorem follows_look
    {view : List Token → α}
    (h : ∀ tokens, view (tokens.map r.token) = view tokens) :
    Follows r id (do return view (← get)) (do return view (← get)) :=
  follows_get.last fun tokens => (h tokens).symm

theorem follows_modify
    {f : List Token → List Token}
    (h : ∀ tokens, f (tokens.map r.token) = (f tokens).map r.token) :
    Follows r id (modify f) (modify f) := by
  intro tokens
  change SameEnd r id (.ok ((), f tokens)) (.ok ((), f (tokens.map r.token)))
  rw [h]
  exact .value () (f tokens)

theorem follows_stop
    (problem : SyntaxProblem) :
    Follows r change (stop problem) (stop problem) :=
  fun _ => .stop (.same problem)

theorem follows_unexpected
    (expectation : Expectation) :
    Follows r change (unexpected expectation) (unexpected expectation) := by
  intro tokens
  refine .stop ?_
  cases tokens with
  | nil =>
      exact .same _
  | cons token rest =>
      cases hname : token.isName with
      | true =>
          change r.Turns (.unexpected expectation (some token.text))
            (.unexpected expectation (some (r.token token).text))
          rw [r.text_token_of_isName hname]
          exact .found expectation token.text
      | false =>
          change r.Turns (.unexpected expectation (some token.text))
            (.unexpected expectation (some (r.token token).text))
          rw [r.text_token_of_not_isName hname]
          exact .same _

/-- A reader that goes past the token at hand, or does not. -/
theorem follows_token
    {p : Token → Bool} {f : Token → α} {f' : Token → α'} {other : Parser α} {other' : Parser α'}
    (hp : ∀ token, p (r.token token) = p token)
    (hf : ∀ token, p token = true → change (f token) = f' (r.token token))
    (hother : Follows r change other other') :
    Follows r change
      (fun tokens =>
        match tokens with
        | [] => other tokens
        | token :: rest => if p token then .ok (f token, rest) else other tokens)
      (fun tokens =>
        match tokens with
        | [] => other' tokens
        | token :: rest => if p token then .ok (f' token, rest) else other' tokens) := by
  intro tokens
  cases tokens with
  | nil =>
      exact hother []
  | cons token rest =>
      have hnext := hother (token :: rest)
      simp only [List.map_cons, hp] at hnext ⊢
      split
      · rename_i hin
        rw [← hf token hin]
        exact .value _ _
      · exact hnext

end Rules

/-! ## Single tokens -/

section Tokens

variable {change : α → α'}

theorem any_head?_token
    {p : Token → Bool}
    (h : ∀ token, p (r.token token) = p token)
    (tokens : List Token) :
    (tokens.map r.token).head?.any p = tokens.head?.any p := by
  cases tokens with
  | nil =>
      rfl
  | cons token rest =>
      exact h token

theorem any_next?_token
    {p : Token → Bool}
    (h : ∀ token, p (r.token token) = p token)
    (tokens : List Token) :
    (tokens.map r.token).tail.head?.any p = tokens.tail.head?.any p := by
  rw [← List.map_tail, any_head?_token h]

theorem follows_atMark
    (mark : String) :
    Follows r id (atMark mark) (atMark mark) :=
  follows_look (any_head?_token fun token => r.isMark_token token mark)

theorem follows_atWord
    {word : String}
    (h : word ∈ soughtWords) :
    Follows r id (atWord word) (atWord word) :=
  follows_look (any_head?_token fun token => r.isWord_token h token)

theorem follows_atKind
    {kind : TokenKind}
    (h : ∀ marked, kind ≠ .name marked) :
    Follows r id (atKind kind) (atKind kind) :=
  follows_look (any_head?_token fun token => r.kind_token h token)

theorem follows_atName :
    Follows r id atName atName :=
  follows_look (any_head?_token r.isName_token)

theorem follows_nextIsWord
    {word : String}
    (h : word ∈ soughtWords) :
    Follows r id (nextIsWord word) (nextIsWord word) :=
  follows_look (any_next?_token fun token => r.isWord_token h token)

theorem follows_nextIsMark
    (mark : String) :
    Follows r id (nextIsMark mark) (nextIsMark mark) :=
  follows_look (any_next?_token fun token => r.isMark_token token mark)

theorem follows_skip :
    Follows r id skip skip :=
  follows_modify fun _ => List.map_tail.symm

theorem follows_eatMark
    (mark : String) :
    Follows r id (eatMark mark) (eatMark mark) := by
  refine (follows_atMark mark).bind fun found => ?_
  cases found with
  | true =>
      exact follows_skip.bind fun _ => follows_pure rfl
  | false =>
      exact follows_pure rfl

theorem follows_eatWord
    {word : String}
    (h : word ∈ soughtWords) :
    Follows r id (eatWord word) (eatWord word) := by
  refine (follows_atWord h).bind fun found => ?_
  cases found with
  | true =>
      exact follows_skip.bind fun _ => follows_pure rfl
  | false =>
      exact follows_pure rfl

theorem dropWhile_token
    {p : Token → Bool}
    (h : ∀ token, p (r.token token) = p token)
    (tokens : List Token) :
    (tokens.map r.token).dropWhile p = (tokens.dropWhile p).map r.token := by
  rw [List.dropWhile_map]
  congr 2
  exact funext h

theorem takeWhile_token
    {p : Token → Bool}
    (h : ∀ token, p (r.token token) = p token)
    (tokens : List Token) :
    (tokens.map r.token).takeWhile p = (tokens.takeWhile p).map r.token := by
  rw [List.takeWhile_map]
  congr 2
  exact funext h

theorem follows_eatWords
    {word : String}
    (h : word ∈ soughtWords) :
    Follows r id (eatWords word) (eatWords word) := by
  refine (follows_atWord h).bind fun found => ?_
  refine Follows.bind (follows_modify (dropWhile_token fun token => r.isWord_token h token)) ?_
  exact fun _ => follows_pure rfl

theorem follows_expectMark
    (mark : String) :
    Follows r id (expectMark mark) (expectMark mark) := by
  refine (follows_eatMark mark).bind fun found => ?_
  cases found with
  | true =>
      exact follows_pure rfl
  | false =>
      exact follows_unexpected _

theorem follows_identifier :
    Follows r r.name identifier identifier :=
  follows_token r.isName_token (fun _ h => (r.text_token_of_isName h).symm)
    (follows_unexpected .identifier)

theorem follows_stringValue :
    Follows r id stringValue stringValue := by
  refine follows_token (r.kind_token nofun) (fun token h => ?_) (follows_unexpected .enumValue)
  exact (r.text_token_of_not_isName (Renaming.isName_of_kind h nofun)).symm

end Tokens

/-! ## Rows -/

section Rows

variable {change : α → α'} {item : Parser α} {item' : Parser α'}

theorem follows_commaListWithin
    {close : String}
    (hitem : Follows r change item item')
    (rounds : Nat) :
    Follows r (List.map change) (commaListWithin close item rounds)
      (commaListWithin close item' rounds) := by
  induction rounds with
  | zero =>
      exact follows_stop _
  | succ rounds ih =>
      refine (follows_atMark close).bind fun closed => ?_
      cases closed with
      | true =>
          exact follows_pure rfl
      | false =>
          refine hitem.bind fun first => ?_
          refine (follows_eatMark ",").bind fun more => ?_
          cases more with
          | true =>
              exact ih.last fun _ => rfl
          | false =>
              exact follows_pure rfl

theorem follows_commaList
    {close : String}
    (hitem : Follows r change item item') :
    Follows r (List.map change) (commaList close item) (commaList close item') := by
  refine follows_get.bind fun tokens => ?_
  rw [List.length_map]
  refine (follows_commaListWithin hitem _).bind fun items => ?_
  exact (follows_expectMark close).bind fun _ => follows_pure rfl

theorem follows_moreWithin
    {separator : Parser Bool}
    (hseparator : Follows r id separator separator)
    (hitem : Follows r change item item')
    (rounds : Nat) :
    Follows r (List.map change) (moreWithin separator item rounds)
      (moreWithin separator item' rounds) := by
  induction rounds with
  | zero =>
      exact follows_stop _
  | succ rounds ih =>
      refine hseparator.bind fun more => ?_
      cases more with
      | true =>
          exact hitem.bind fun first => ih.last fun _ => rfl
      | false =>
          exact follows_pure rfl

theorem follows_separated
    {separator : Parser Bool}
    (hseparator : Follows r id separator separator)
    (hitem : Follows r change item item') :
    Follows r (List.map change) (separated separator item) (separated separator item') := by
  refine hitem.bind fun first => follows_get.bind fun tokens => ?_
  rw [List.length_map]
  exact (follows_moreWithin hseparator hitem _).last fun _ => rfl

theorem follows_untilWithin
    {ends : Parser Bool}
    (hends : Follows r id ends ends)
    (hitem : Follows r change item item')
    (rounds : Nat) :
    Follows r (List.map change) (untilWithin ends item rounds) (untilWithin ends item' rounds) := by
  induction rounds with
  | zero =>
      exact follows_stop _
  | succ rounds ih =>
      refine hends.bind fun ended => ?_
      cases ended with
      | true =>
          exact follows_pure rfl
      | false =>
          exact hitem.bind fun first => ih.last fun _ => rfl

theorem follows_itemsUntil
    {ends : Parser Bool}
    (hends : Follows r id ends ends)
    (hitem : Follows r change item item') :
    Follows r (List.map change) (itemsUntil ends item) (itemsUntil ends item') := by
  refine follows_get.bind fun tokens => ?_
  rw [List.length_map]
  exact follows_untilWithin hends hitem _

end Rows

end Parser
end WebIdl
end FeatureProbes
