import FeatureProbes.Script.Statement

/-!
# Reading past tokens

What the rules of the grammar do at a given token, and how they are put together.  A state faces a
token when the token is at hand and nothing has been found fault with so far.  Going past a token
only needs the lexeme after it, so a text is followed token by token without offsets.

The main statements are about operands.  An operand in front of a token that ends expressions is a
whole expression, whatever the operand is.
-/

namespace FeatureProbes
namespace Script

/-- A state in which no fault has been met, at a token of a kind with a text, and in front of some
characters. -/
structure State.Facing
    (s : State)
    (kind : TokenKind)
    (text : String)
    (rest : List Char) : Prop where
  kind_eq : s.token.kind = kind
  text_eq : s.token.text = text
  escaped_eq : s.token.escaped = false
  rest_eq : s.rest = rest
  lexical_eq : s.lexical = []
  grammatical_eq : s.grammatical = []
  defaults_eq : s.defaults = []
  /-- Two rounds of any repetition can be made. -/
  two_le_budget : 2 ≤ s.budget

/-- The state at the next token. -/
def State.next (s : State) : State :=
  let scanned := scanToken s.token.stop false s.rest
  { s with
    token := scanned.1
    rest := scanned.2.1
    lexical := s.lexical ++ scanned.2.2 }

/-- The lexeme after the blanks at the start of a text. -/
def lexemeAfter (rest : List Char) : Lexeme :=
  readLexeme (skipTrivia .between 0 false rest).rest

section Facing

variable {s : State} {kind nextKind : TokenKind} {text nextText mark : String}
  {rest nextRest spelling : List Char} {bad : Bool}

/-- The token after the one at hand is the lexeme after the blanks. -/
theorem State.Facing.next
    (h : s.Facing kind text rest)
    (hlexeme : lexemeAfter rest = ⟨nextKind, nextText, spelling, nextRest, false, bad, []⟩)
    (hclosed : (skipTrivia .between 0 false rest).unclosed = false) :
    s.next.Facing nextKind nextText nextRest := by
  rw [lexemeAfter] at hlexeme
  refine ⟨?_, ?_, ?_, ?_, ?_, h.grammatical_eq, h.defaults_eq, h.two_le_budget⟩
  all_goals
    simp [State.next, scanToken, h.rest_eq, hlexeme, hclosed, h.lexical_eq]

/-- A line ends before the next token if the blanks have a line end. -/
theorem State.Facing.afterNewline_next
    (h : s.Facing kind text rest) :
    s.next.token.afterNewline = (skipTrivia .between 0 false rest).newline := by
  simp [State.next, scanToken, h.rest_eq]

theorem State.Facing.isPunctuator_eq
    (h : s.Facing kind text rest) :
    s.token.isPunctuator mark = (kind == .punctuator && text == mark) := by
  rw [Token.isPunctuator, h.kind_eq, h.text_eq]

theorem State.Facing.isWord_eq
    (h : s.Facing kind text rest) :
    s.token.isWord mark = (kind == .word && text == mark) := by
  rw [Token.isWord, h.kind_eq, h.text_eq]

theorem State.Facing.isStuck_eq
    (h : s.Facing kind text rest) :
    s.token.isStuck = (kind == .endOfText || kind == .unknown) := by
  rw [Token.isStuck, h.kind_eq]

theorem State.Facing.fault?_eq_none
    (h : s.Facing kind text rest) :
    s.fault? = none := by
  simp [State.fault?, h.lexical_eq, h.grammatical_eq, h.defaults_eq]

end Facing

namespace Rule

variable {α β σ : Type} {s t u : State}

@[simp] theorem pure_apply (a : α) : (pure a : Rule α) s = .ok (a, s) := by
  rfl

@[simp] theorem bind_apply
    (rule : Rule α)
    (next : α → Rule β) :
    (rule >>= next) s =
      match rule s with
      | .ok (a, t) => next a t
      | .error fault => .error fault := by
  change (rule s >>= fun p => next p.1 p.2) = _
  cases rule s with
  | ok p =>
      rfl
  | error fault =>
      rfl

@[simp] theorem map_apply
    (f : α → β)
    (rule : Rule α) :
    (f <$> rule) s =
      match rule s with
      | .ok (a, t) => .ok (f a, t)
      | .error fault => .error fault := by
  rw [← bind_pure_comp, bind_apply]
  rfl

@[simp] theorem token_apply : token s = .ok (s.token, s) := by
  rfl

@[simp] theorem step_apply : step s = .ok ((), s.next) := by
  rfl

@[simp] theorem at?_apply (mark : String) : at? mark s = .ok (s.token.isPunctuator mark, s) := by
  rfl

@[simp] theorem atWord?_apply (word : String) : atWord? word s = .ok (s.token.isWord word, s) := by
  rfl

@[simp] theorem stuck?_apply : stuck? s = .ok (s.token.isStuck, s) := by
  rfl

@[simp] theorem get_apply : (get : Rule State) s = .ok (s, s) := by
  rfl

theorem advance_apply
    (h : s.token.escaped = false) :
    advance s = .ok ((), s.next) := by
  simp [advance, h]

theorem eat_apply
    {mark : String}
    (hescaped : s.token.escaped = false)
    (h : s.token.isPunctuator mark = true) :
    eat mark s = .ok (true, s.next) := by
  simp only [eat, bind_apply, at?_apply, h, ↓reduceIte, advance_apply hescaped, pure_apply]

theorem eat_apply_of_not
    {mark : String}
    (h : s.token.isPunctuator mark = false) :
    eat mark s = .ok (false, s) := by
  simp [eat, h]

theorem expect_apply
    {mark : String} {rest : List Char}
    (h : s.Facing .punctuator mark rest) :
    expect mark s = .ok ((), s.next) := by
  simp [expect, eat_apply h.escaped_eq, h.isPunctuator_eq]

theorem eatWord_apply_of_not
    {word : String}
    (h : s.token.isWord word = false) :
    eatWord word s = .ok (false, s) := by
  simp [eatWord, h]

theorem expectWord_apply
    {word : String} {rest : List Char}
    (h : s.Facing .word word rest) :
    expectWord word s = .ok ((), s.next) := by
  simp [expectWord, eatWord, h.isWord_eq, advance_apply h.escaped_eq]

theorem ahead_apply
    {rule : Rule α} {a : α}
    (h : rule s = .ok (a, t)) :
    ahead rule s = .ok (a, s) := by
  simp [ahead, h]

section Rounds

variable {round : σ → Rule (σ ⊕ α)} {first second : σ} {a : α}

theorem untilDone_apply_once
    (hbudget : 0 < s.budget)
    (h : round first s = .ok (.inr a, t)) :
    untilDone round first s = .ok (a, t) := by
  obtain ⟨budget, hbudget⟩ := Nat.exists_eq_add_one.2 hbudget
  simp [untilDone, hbudget, repeatWithin, h]

theorem untilDone_apply_twice
    (hbudget : 1 < s.budget)
    (hfirst : round first s = .ok (.inl second, t))
    (hsecond : round second t = .ok (.inr a, u)) :
    untilDone round first s = .ok (a, u) := by
  obtain ⟨budget, hbudget⟩ : ∃ budget, s.budget = budget + 2 :=
    ⟨s.budget - 2, by omega⟩
  simp [untilDone, hbudget, repeatWithin, hfirst, hsecond]

end Rounds

section Items

variable {item : Rule Tree} {tree : Tree}

theorem rowUntil_apply_single
    (ends : Rule Bool)
    (hbudget : 2 ≤ s.budget)
    (hstuck : s.token.isStuck = false)
    (hgoes : ends s = .ok (false, s))
    (hitem : item s = .ok (tree, t))
    {ended : Bool}
    (hended : ends t = .ok (ended, t))
    (hdone : t.token.isStuck = true ∨ ended = true) :
    rowUntil ends item s = .ok ([tree], t) := by
  have hfirst : rowRound ends item [] s = .ok (.inl [tree], t) := by
    simp [rowRound, hstuck, hgoes, hitem]
  refine untilDone_apply_twice hbudget hfirst ?_
  simp [rowRound, hended, hdone]

theorem listUntil_apply_nil
    (close : String)
    (item : Rule Tree)
    (hclose : s.token.isPunctuator close = true) :
    listUntil close item s = .ok (([], false), s) := by
  simp [listUntil, hclose]

theorem listUntil_apply_single
    (close : String)
    (hopen : s.token.isPunctuator close = false)
    (hstuck : s.token.isStuck = false)
    (hitem : item s = .ok (tree, t))
    (hbudget : 0 < t.budget)
    (hclose : t.token.isPunctuator close = true) :
    listUntil close item s = .ok (([tree], false), t) := by
  have hround : untilDone (listRound close item) [tree] t = .ok (([tree], false), t) :=
    untilDone_apply_once hbudget (by simp [listRound, hclose])
  simp [listUntil, hopen, hstuck, hitem, hround]

theorem restListUntil_apply_nil
    (close : String)
    (item restItem : Rule Tree)
    (late : Fault)
    (hbudget : 0 < s.budget)
    (hclose : s.token.isPunctuator close = true) :
    restListUntil close item restItem late s = .ok ([], s) := by
  refine untilDone_apply_once hbudget ?_
  simp [restListRound, hclose]

end Items

/-! ## Operands -/

theorem primaryExpression_string_apply
    {rules : Rules} {ctx : Context} {text : String} {rest : List Char}
    (h : s.Facing .string text rest) :
    primaryExpression rules ctx s = .ok (.leaf text, s.next) := by
  simp [primaryExpression, tokenLeaf, h.kind_eq, h.text_eq, advance_apply h.escaped_eq]

theorem endStatement_apply
    {rest : List Char}
    (h : s.Facing .punctuator ";" rest) :
    endStatement s = .ok ((), s.next) := by
  simp [endStatement, implicitEnd?, h.isPunctuator_eq, advance_apply h.escaped_eq]

/-- Whether an expression ends before a token, whatever stands in front of it. -/
def Ends (token : Token) : Prop :=
  token.kind = .endOfText ∨ token.kind = .punctuator ∧ (token.text = ";" ∨ token.text = ")")

/-- Whether a token begins an operand without a sign: a string, a parenthesis or a function. -/
def Begins (token : Token) : Prop :=
  token.kind = .string ∨ token.kind = .punctuator ∧ token.text = "(" ∨
    token.kind = .word ∧ token.text = "function"

section Operand

variable {token : Token}

theorem Ends.isPunctuator_eq_false
    (h : Ends token)
    {mark : String}
    (hsemicolon : mark ≠ ";")
    (hclose : mark ≠ ")") :
    token.isPunctuator mark = false := by
  rcases h with h | ⟨-, h | h⟩
  · simp [Token.isPunctuator, h]
  · simp [Token.isPunctuator, h, hsemicolon.symm]
  · simp [Token.isPunctuator, h, hclose.symm]

theorem Ends.opensTemplate_eq_false
    (h : Ends token) :
    token.opensTemplate = false := by
  rcases h with h | ⟨h, -⟩ <;> simp [Token.opensTemplate, h]

theorem Ends.operatorLevel?_eq_none
    (h : Ends token) :
    operatorLevel? token = none := by
  rcases h with h | ⟨h, h' | h'⟩ <;> simp [operatorLevel?, *]

theorem Ends.not_assignment
    (h : Ends token) :
    ¬(token.kind = .punctuator ∧ token.text ∈ assignmentOperators) := by
  rcases h with h | ⟨h, h' | h'⟩ <;> simp [assignmentOperators, *]

theorem Begins.kind_ne_privateName
    (h : Begins token) :
    token.kind ≠ .privateName := by
  rcases h with h | ⟨h, -⟩ | ⟨h, -⟩ <;> simp [h]

theorem Begins.isWord_eq_false
    (h : Begins token)
    {word : String}
    (hword : word ≠ "function") :
    token.isWord word = false := by
  rcases h with h | ⟨h, -⟩ | ⟨-, h⟩
  · simp [Token.isWord, h]
  · simp [Token.isWord, h]
  · simp [Token.isWord, h, hword.symm]

theorem Begins.isSign_eq_false
    (h : Begins token) :
    isSign token = false := by
  rcases h with h | ⟨h, h'⟩ | ⟨h, h'⟩ <;> simp [isSign, *]

theorem Begins.isUpdate_eq_false
    (h : Begins token) :
    isUpdate token = false := by
  rcases h with h | ⟨h, h'⟩ | ⟨h, h'⟩ <;> simp [isUpdate, Token.isPunctuator, *]

end Operand

section Expression

variable {rules : Rules} {ctx : Context} {tree : Tree}

/-- No member access follows before a token that begins none. -/
theorem memberAccesses_apply
    (rules : Rules)
    (ctx : Context)
    (hbudget : 0 < s.budget)
    (hmark : ∀ mark ∈ ["?.", ".", "["], s.token.isPunctuator mark = false)
    (htemplate : s.token.opensTemplate = false)
    (access : Access) :
    memberAccesses rules ctx access s = .ok (access, s) := by
  simp only [List.forall_mem_cons, List.not_mem_nil, false_implies, implies_true, and_true] at hmark
  refine untilDone_apply_once hbudget ?_
  simp [memberRound, optionalMemberAhead?, eat_apply_of_not, hmark, htemplate]

/-- No call follows before a token that ends expressions. -/
theorem callRound_apply
    (rules : Rules)
    (ctx : Context)
    (hbudget : 0 < s.budget)
    (hends : Ends s.token)
    (access : Access) :
    callRound rules ctx access s = .ok (.inr access, s) := by
  have hmark : ∀ {mark}, mark ≠ ";" → mark ≠ ")" → s.token.isPunctuator mark = false :=
    hends.isPunctuator_eq_false
  have haccesses := memberAccesses_apply rules ctx hbudget (by simp [hmark])
    hends.opensTemplate_eq_false access
  simp [callRound, haccesses, eat_apply_of_not, hmark]

/-- Calls and member accesses are no more than what they begin with. -/
theorem accessExpression_apply
    (hbudget : 0 < t.budget)
    (hends : Ends t.token)
    (h : rules .primary ctx s = .ok (tree, t)) :
    accessExpression rules ctx s = .ok (tree, t) := by
  have haccess := untilDone_apply_once hbudget
    (callRound_apply rules ctx hbudget hends ⟨tree, false⟩)
  simp [accessExpression, h, haccess]

theorem updateExpression_apply
    (hbegins : Begins s.token)
    (hends : Ends t.token)
    (h : rules .access ctx s = .ok (tree, t)) :
    updateExpression rules ctx s = .ok (tree, t) := by
  have hnext : isUpdate t.token = false := by
    simp [isUpdate, hends.isPunctuator_eq_false]
  simp [updateExpression, hbegins.isUpdate_eq_false, h, hnext]

theorem operation_apply
    (level : Nat)
    (hbudget : 0 < t.budget)
    (hbegins : Begins s.token)
    (hends : Ends t.token)
    (h : rules .operand ctx s = .ok (tree, t)) :
    operation rules ctx level s = .ok (tree, t) := by
  have hround : ∀ bracket,
      operationRound rules ctx level bracket tree t = .ok (.inr tree, t) := by
    intro bracket
    simp [operationRound, joinRightAngles, hends.isPunctuator_eq_false,
      hends.operatorLevel?_eq_none]
  have hjoined := untilDone_apply_once hbudget (hround (s.token.isPunctuator "("))
  simp [operation, hbegins.kind_ne_privateName, h, hjoined]

/-- An expression without commas that is no assignment. -/
theorem assignment_apply
    (hbegins : Begins s.token)
    (hguess : guessArrow s = .ok (.no, s))
    (hends : Ends t.token)
    (h : rules (.operation 0) ctx s = .ok (tree, t)) :
    assignment rules ctx s = .ok (tree, t) := by
  have hrest : assignmentRest rules ctx tree t = .ok (tree, t) := by
    have hmark : t.token.isPunctuator "?" = false :=
      hends.isPunctuator_eq_false (by decide) (by decide)
    cases hreference : tree.reference? <;>
      simp [assignmentRest, hreference, hends.isPunctuator_eq_false, hends.not_assignment,
        conditionalRest, eat_apply_of_not hmark]
  simp [assignment, yieldAhead?, arrowFunction?, asyncArrowAhead?, hbegins.isWord_eq_false, hguess,
    h, hrest]

theorem expression_apply
    (hends : Ends t.token)
    (h : rules .assignment { ctx with inDecorator := false } s = .ok (tree, t)) :
    expression rules ctx s = .ok (tree, t) := by
  simp [expression, h, hends.isPunctuator_eq_false]

end Expression

/-- What calls and member accesses give in front of a token that ends expressions is an expression
without commas. -/
theorem upTo_assignment_of_access
    {depth : Nat} {ctx : Context} {tree : Tree}
    (hbudget : 0 < t.budget)
    (hbegins : Begins s.token)
    (hguess : guessArrow s = .ok (.no, s))
    (hends : Ends t.token)
    (h : upTo depth .access ctx s = .ok (tree, t)) :
    upTo (depth + 3) .assignment ctx s = .ok (tree, t) := by
  have hoperand : upTo (depth + 1) .operand ctx s = .ok (tree, t) := by
    change (do
      let here ← token
      if isSign here || here.isWord "await" then signedOperand (upTo depth) ctx
      else updateExpression (upTo depth) ctx : Rule Tree) s = _
    simp [hbegins.isSign_eq_false, hbegins.isWord_eq_false, updateExpression_apply hbegins hends h]
  have hoperation : upTo (depth + 2) (.operation 0) ctx s = .ok (tree, t) :=
    operation_apply 0 hbudget hbegins hends hoperand
  exact assignment_apply hbegins hguess hends hoperation

end Rule
end Script
end FeatureProbes
