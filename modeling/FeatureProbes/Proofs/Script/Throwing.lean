import FeatureProbes.Proofs.Script.Reading
import FeatureProbes.Proofs.Text.Lines
import FeatureProbes.Proofs.Text.Quoted
import FeatureProbes.Script.Wrapper

/-!
# Scripts that throw

A function that calls itself and throws a text is a script, whatever the text is.  The text is
followed token by token: it has thirteen tokens with the end, and only the string depends on what
is thrown.  Then the rules are put together from the innermost expression outwards.
-/

namespace FeatureProbes
namespace Script

open Rule

/-- The wrapped statement that throws a text has the quoted text between two fixed pieces. -/
theorem toList_wrap_throwing
    (message : String) :
    (wrap (throwing message)).toList =
      "(function () \x7b\n  throw ".toList ++
        (Text.quote message.toList ++ ";\n\x7d)()".toList) := by
  have hbody : (throwing message).toList =
      ("throw ".toList ++ Text.quote message.toList) ++ [';'] := by
    simp [throwing, Text.quoted]
  have hline : '\n' ∉ ("throw ".toList ++ Text.quote message.toList) ++ [';'] := by
    simp [Text.newline_not_mem_quote]
  rw [wrap, hbody, Text.trimEnd_append_singleton (by decide), Text.indent_of_single_line hline]
  · simp
  · rfl

theorem readLexeme_quote
    (text rest : List Char) :
    readLexeme (Text.quote text ++ rest) =
      ⟨.string, String.ofList text, Text.quote text, rest, false, false, []⟩ := by
  have hread := readText_quote text rest
  have hquote : Text.quote text ++ rest =
      '"' :: (text.flatMap Text.escapeChar ++ '"' :: rest) := by
    simp [Text.quote]
  rw [hquote]
  change readString '"' (text.flatMap Text.escapeChar ++ '"' :: rest) = _
  simp [readString, hread, Text.quote]

/-- The statement that throws a text. -/
def throwTree (text : String) : Tree :=
  .node (.jump "throw") [.leaf text]

/-- A function without a name and parameters whose body is one statement. -/
def functionTree (statement : Tree) : Tree :=
  .node (.functionLike false false) [.node .parameters [], .node .body [statement]]

/-- A script that calls a function in parentheses. -/
def callTree (function : Tree) : Tree :=
  .node .program [.node .expressionStatement [.node .call [.node .parenthesized [function]]]]

/-- What follows the word that throws a text. -/
def afterThrow (text : List Char) : List Char :=
  Text.quote text ++ ";\n\x7d)()".toList

section Throwing

variable {s : State} {text : List Char}

/-- The statement that throws a string, at its word. -/
theorem statement_throw
    (h : s.Facing .word "throw" (" ".toList ++ afterThrow text))
    (depth : Nat)
    (ctx : Context) :
    ∃ t, upTo (depth + 7) (.statement false) ctx s = .ok (throwTree (String.ofList text), t) ∧
      t.Facing .punctuator "\x7d" ")()".toList := by
  have hstring : s.next.Facing .string (String.ofList text) ";\n\x7d)()".toList :=
    h.next (readLexeme_quote text _) rfl
  have hsemicolon : s.next.next.Facing .punctuator ";" "\n\x7d)()".toList :=
    hstring.next rfl rfl
  have hbrace : s.next.next.next.Facing .punctuator "\x7d" ")()".toList :=
    hsemicolon.next rfl rfl
  have hnewline : s.next.token.afterNewline = false :=
    h.afterNewline_next
  have hends : Ends s.next.next.token :=
    Or.inr ⟨hsemicolon.kind_eq, Or.inl hsemicolon.text_eq⟩
  have hbudget : 0 < s.next.next.budget :=
    Nat.lt_of_lt_of_le Nat.zero_lt_two hsemicolon.two_le_budget
  have hguess : guessArrow s.next = .ok (.no, s.next) := by
    simp [guessArrow, hstring.isPunctuator_eq, hstring.isWord_eq]
  have haccess : ∀ ctx,
      upTo (depth + 2) .access ctx s.next = .ok (.leaf (String.ofList text), s.next.next) :=
    fun ctx => accessExpression_apply hbudget hends (primaryExpression_string_apply hstring)
  have hvalue : ∀ ctx,
      upTo (depth + 6) .expression ctx s.next =
        .ok (.leaf (String.ofList text), s.next.next) :=
    fun ctx => expression_apply hends
      (upTo_assignment_of_access hbudget (Or.inl hstring.kind_eq) hguess hends (haccess _))
  refine ⟨_, ?_, hbrace⟩
  change statement (upTo (depth + 6)) ctx false s = _
  simp [statement, wordStatement, throwStatement, throwTree, h.kind_eq, h.text_eq,
    advance_apply h.escaped_eq, hnewline, hvalue, endStatement_apply hsemicolon]

/-- The function that throws a string, at its word. -/
theorem functionAny_throw
    (h : s.Facing .word "function" (" () \x7b\n  throw ".toList ++ afterThrow text))
    (depth : Nat)
    (ctx : Context) :
    ∃ t, functionAny (upTo (depth + 7)) ctx true false s =
        .ok (functionTree (throwTree (String.ofList text)), t) ∧
      t.Facing .punctuator ")" "()".toList := by
  have hopen : s.next.Facing .punctuator "(" (") \x7b\n  throw ".toList ++ afterThrow text) :=
    h.next rfl rfl
  have hclose :
      s.next.next.Facing .punctuator ")" (" \x7b\n  throw ".toList ++ afterThrow text) :=
    hopen.next rfl rfl
  have hbody :
      s.next.next.next.Facing .punctuator "\x7b" ("\n  throw ".toList ++ afterThrow text) :=
    hclose.next rfl rfl
  have hthrow :
      s.next.next.next.next.Facing .word "throw" (" ".toList ++ afterThrow text) :=
    hbody.next rfl rfl
  have hparameters : ∀ rules ctx,
      formalParameters rules ctx s.next = .ok (.node .parameters [], s.next.next.next) := by
    intro rules ctx
    have hempty := fun item restItem late =>
      restListUntil_apply_nil ")" item restItem late
        (Nat.lt_of_lt_of_le Nat.zero_lt_two hclose.two_le_budget) hclose.isPunctuator_eq
    simp [formalParameters, expect_apply hopen, hempty, expect_apply hclose]
  have hstatements : ∀ ctx, ∃ t,
      functionBody (upTo (depth + 7)) ctx s.next.next.next =
          .ok (.node .body [throwTree (String.ofList text)], t) ∧
        t.Facing .punctuator ")" "()".toList := by
    intro ctx
    obtain ⟨t, hstatement, hbrace⟩ := statement_throw hthrow depth
      { ctx with inReturn := true, inDecorator := false }
    have hrow := rowUntil_apply_single (at? "\x7d") hthrow.two_le_budget hthrow.isStuck_eq
      (by simp [hthrow.isPunctuator_eq]) hstatement (at?_apply _)
      (Or.inr hbrace.isPunctuator_eq)
    refine ⟨_, ?_, hbrace.next rfl rfl⟩
    simp [functionBody, expect_apply hbody, hrow, expect_apply hbrace]
  obtain ⟨t, hbodyTree, ht⟩ := hstatements
    { ctx with allowIn := true, inAwait := false, inYield := false }
  refine ⟨t, ?_, ht⟩
  have hname : ∀ ctx, functionName ctx false s.next = .ok ([], s.next) := by
    intro ctx
    simp [functionName, Token.isIdentifier, hopen.kind_eq]
  simp [functionAny, eatWord_apply_of_not, h.isWord_eq, expectWord_apply h,
    eat_apply_of_not, hopen.isPunctuator_eq, hname, functionRest, hparameters,
    hbody.isPunctuator_eq, hbodyTree, functionTree]

/-- The function in parentheses, at the opening one. -/
theorem parenthesized_throw
    (h : s.Facing .punctuator "(" ("function () \x7b\n  throw ".toList ++ afterThrow text))
    (depth : Nat)
    (ctx : Context) :
    ∃ t, parenthesized (upTo (depth + 12)) ctx s =
        .ok (.node .parenthesized [functionTree (throwTree (String.ofList text))], t) ∧
      t.Facing .punctuator "(" ")".toList := by
  have hfunction :
      s.next.Facing .word "function" (" () \x7b\n  throw ".toList ++ afterThrow text) :=
    h.next rfl rfl
  obtain ⟨t, hvalue, hclose⟩ := functionAny_throw hfunction depth ctx.bracketed
  have hends : Ends t.token :=
    Or.inr ⟨hclose.kind_eq, Or.inr hclose.text_eq⟩
  have hbudget : 0 < t.budget :=
    Nat.lt_of_lt_of_le Nat.zero_lt_two hclose.two_le_budget
  have hguess : guessArrow s.next = .ok (.no, s.next) := by
    simp [guessArrow, hfunction.isPunctuator_eq, hfunction.isWord_eq]
  have hprimary : upTo (depth + 8) .primary ctx.bracketed s.next =
      .ok (functionTree (throwTree (String.ofList text)), t) := by
    change primaryExpression (upTo (depth + 7)) ctx.bracketed s.next = _
    simp [primaryExpression, wordExpression, hfunction.kind_eq, hfunction.text_eq, hvalue]
  have haccess : upTo (depth + 9) .access ctx.bracketed s.next =
      .ok (functionTree (throwTree (String.ofList text)), t) :=
    accessExpression_apply hbudget hends hprimary
  have hitem : upTo (depth + 12) .assignment ctx.bracketed s.next =
      .ok (functionTree (throwTree (String.ofList text)), t) :=
    upTo_assignment_of_access hbudget
      (Or.inr (Or.inr ⟨hfunction.kind_eq, hfunction.text_eq⟩)) hguess hends haccess
  have hcomma : s.next.token.isPunctuator ")" = false := by
    simp [hfunction.isPunctuator_eq]
  have hlist := listUntil_apply_single ")" hcomma hfunction.isStuck_eq hitem hbudget
    hclose.isPunctuator_eq
  refine ⟨_, ?_, hclose.next rfl rfl⟩
  simp [parenthesized, advance_apply h.escaped_eq, hlist, expect_apply hclose]

/-- The call of the function in parentheses, at its beginning. -/
theorem access_throw
    (h : s.Facing .punctuator "(" ("function () \x7b\n  throw ".toList ++ afterThrow text))
    (depth : Nat)
    (ctx : Context) :
    ∃ t, upTo (depth + 14) .access ctx s =
        .ok (.node .call
          [.node .parenthesized [functionTree (throwTree (String.ofList text))]], t) ∧
      t.Facing .endOfText "" [] := by
  obtain ⟨t, hcallee, hopen⟩ := parenthesized_throw h depth ctx
  have hprimary : upTo (depth + 13) .primary ctx s =
      .ok (.node .parenthesized [functionTree (throwTree (String.ofList text))], t) := by
    change primaryExpression (upTo (depth + 12)) ctx s = _
    simp [primaryExpression, markedExpression, h.kind_eq, h.text_eq, hcallee]
  have hclose : t.next.Facing .punctuator ")" [] :=
    hopen.next rfl rfl
  have hend : t.next.next.Facing .endOfText "" [] :=
    hclose.next rfl rfl
  have hcall : ∀ callee, callRound (upTo (depth + 13)) ctx ⟨callee, false⟩ t =
      .ok (.inl ⟨.node .call [callee], false⟩, t.next.next) := by
    intro callee
    have haccesses := memberAccesses_apply (upTo (depth + 13)) ctx
      (Nat.lt_of_lt_of_le Nat.zero_lt_two hopen.two_le_budget)
      (by simp [hopen.isPunctuator_eq]) (by simp [Token.opensTemplate, hopen.kind_eq])
      ⟨callee, false⟩
    have hnone := fun item => listUntil_apply_nil ")" item hclose.isPunctuator_eq
    simp [callRound, haccesses, eat_apply_of_not, hopen.isPunctuator_eq, arguments,
      expect_apply hopen, hnone, expect_apply hclose]
  have hends : Ends t.next.next.token :=
    Or.inl hend.kind_eq
  have hbudget : 0 < t.next.next.budget :=
    Nat.lt_of_lt_of_le Nat.zero_lt_two hend.two_le_budget
  have hcalls := fun callee => untilDone_apply_twice hopen.two_le_budget (hcall callee)
    (callRound_apply _ ctx hbudget hends ⟨.node .call [callee], false⟩)
  refine ⟨_, ?_, hend⟩
  change accessExpression (upTo (depth + 13)) ctx s = _
  simp [accessExpression, hprimary, hcalls]

/-- The whole script, at its beginning. -/
theorem program_throw
    (h : s.Facing .punctuator "(" ("function () \x7b\n  throw ".toList ++ afterThrow text))
    (depth : Nat) :
    ∃ t, program (upTo (depth + 19)) s =
        .ok (callTree (functionTree (throwTree (String.ofList text))), t) ∧
      t.Facing .endOfText "" [] := by
  have hfunction :
      s.next.Facing .word "function" (" () \x7b\n  throw ".toList ++ afterThrow text) :=
    h.next rfl rfl
  have hguess : guessArrow s = .ok (.no, s) := by
    have hahead : guessAfterParenthesis .yes s = .ok (.no, s.next) := by
      simp [guessAfterParenthesis, hfunction.isPunctuator_eq, hfunction.isWord_eq,
        Token.isIdentifier, hfunction.kind_eq, hfunction.text_eq, reservedWords]
    simp [guessArrow, h.isPunctuator_eq, ahead_apply hahead]
  have hstatement : ∀ ctx, ∃ t, upTo (depth + 19) (.statement false) ctx s =
      .ok (.node .expressionStatement [.node .call
          [.node .parenthesized [functionTree (throwTree (String.ofList text))]]], t) ∧
        t.Facing .endOfText "" [] := by
    intro ctx
    obtain ⟨t, haccess, hend⟩ := access_throw h depth { ctx with inDecorator := false }
    have hends : Ends t.token :=
      Or.inl hend.kind_eq
    have hbudget : 0 < t.budget :=
      Nat.lt_of_lt_of_le Nat.zero_lt_two hend.two_le_budget
    have hexpression : upTo (depth + 18) .expression ctx s = .ok (_, t) :=
      expression_apply hends (upTo_assignment_of_access hbudget
        (Or.inr (Or.inl ⟨h.kind_eq, h.text_eq⟩)) hguess hends haccess)
    refine ⟨t, ?_, hend⟩
    change statement (upTo (depth + 18)) ctx false s = _
    simp [statement, h.kind_eq, h.isPunctuator_eq, expressionStatement, hexpression,
      Tree.reference?, endStatement, implicitEnd?, hend.isPunctuator_eq, hend.kind_eq]
  obtain ⟨t, hitem, hend⟩ := hstatement ⟨true, false, false, true, false⟩
  have hrow := rowUntil_apply_single (return false) h.two_le_budget h.isStuck_eq
    (pure_apply false) hitem (pure_apply false) (Or.inl hend.isStuck_eq)
  refine ⟨t, ?_, hend⟩
  simp [program, hrow, callTree]

end Throwing

/-- The wrapped statement that throws a text is a script, whatever the text is. -/
theorem parse_wrap_throwing
    (message : String) :
    parse (wrap (throwing message)).toList =
      .ok (callTree (functionTree (throwTree message))) := by
  rw [toList_wrap_throwing]
  have hinitial :
      (State.initial ("(function () \x7b\n  throw ".toList ++ afterThrow message.toList)).Facing
        .punctuator "(" ("function () \x7b\n  throw ".toList ++ afterThrow message.toList) :=
    ⟨rfl, rfl, rfl, rfl, rfl, rfl, rfl, Nat.le_add_left 2 _⟩
  obtain ⟨depth, hdepth⟩ : ∃ depth,
      8 * ("(function () \x7b\n  throw ".toList ++ afterThrow message.toList).length + 16 =
        depth + 19 :=
    ⟨8 * ("(function () \x7b\n  throw ".toList ++ afterThrow message.toList).length - 3, by
      simp
      omega⟩
  obtain ⟨t, hprogram, hend⟩ := program_throw hinitial depth
  rw [String.ofList_toList] at hprogram
  rw [← afterThrow, parse, hdepth, hprogram]
  simp [hend.fault?_eq_none]

theorem fault?_wrap_throwing
    (message : String) :
    fault? (wrap (throwing message)) = none := by
  rw [fault?, parse_wrap_throwing]

end Script
end FeatureProbes
