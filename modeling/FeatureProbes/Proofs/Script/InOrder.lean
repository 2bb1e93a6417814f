import FeatureProbes.Proofs.Script.Spans

/-!
# Rules that read identifiers in order

A rule of the grammar keeps identifiers in order: if those that were read before it stand one after
the other in front of the token at hand, then so do they with those that it reads.  There is one
statement for each way to put rules together, so what holds of a rule follows from what holds of
the rules that it consists of.  All of this is said of readings that meet no fault.
-/

namespace FeatureProbes
namespace Script

/-- No fault has been met so far. -/
structure State.Clean (s : State) : Prop where
  lexical : s.lexical = []
  grammatical : s.grammatical = []

/-- From one state to another one nothing that stands in the text is lost, and the token at hand does
not move to the front.  Nothing is said if a fault has been met. -/
def State.Moves (text : List Char) (s t : State) : Prop :=
  t.Clean → s.Clean ∧
    (s.StandsIn text → t.StandsIn text ∧ s.token.start ≤ t.token.start)

/-- A state with the same token at hand and the same rest moves nowhere. -/
theorem State.Moves.of_eq
    {text : List Char} {s t : State}
    (htoken : t.token = s.token)
    (hrest : t.rest = s.rest)
    (hclean : t.Clean → s.Clean) :
    s.Moves text t := by
  intro ht
  refine ⟨hclean ht, fun hstands => ?_⟩
  unfold State.StandsIn
  rw [htoken, hrest]
  exact ⟨hstands, Nat.le_refl _⟩

theorem State.Moves.refl
    (text : List Char)
    (s : State) :
    s.Moves text s :=
  .of_eq rfl rfl id

theorem State.Moves.next
    (text : List Char)
    (s : State) :
    s.Moves text s.next := by
  intro hclean
  refine ⟨⟨(List.append_eq_nil_iff.1 hclean.lexical).1, hclean.grammatical⟩, fun hstands => ?_⟩
  obtain ⟨hnext, hle⟩ := hstands.next hclean.lexical
  exact ⟨hnext, Nat.le_trans hstands.start_le_stop hle⟩

theorem State.Moves.trans
    {text : List Char} {s t u : State}
    (hfirst : s.Moves text t)
    (hsecond : t.Moves text u) :
    s.Moves text u := by
  intro hclean
  obtain ⟨ht, hsecond⟩ := hsecond hclean
  obtain ⟨hs, hfirst⟩ := hfirst ht
  refine ⟨hs, fun hstands => ?_⟩
  obtain ⟨hstands', hle⟩ := hfirst hstands
  obtain ⟨hstands'', hle'⟩ := hsecond hstands'
  exact ⟨hstands'', Nat.le_trans hle hle'⟩

namespace Rule

variable {α β σ : Type}

/-- From one state, where some identifiers stand in front of the token at hand, a rule comes to an
answer and a state where the identifiers of the answer do.  Nothing is said if a fault has been
met. -/
def ReadsFrom
    (text : List Char)
    (s : State)
    (before : List Ident)
    (after : α → List Ident)
    (rule : Rule α) : Prop :=
  ∀ a t, rule s = .ok (a, t) → t.Clean →
    s.Clean ∧ (s.StandsIn text → ∀ low, Ascending text low before s.token.start →
      t.StandsIn text ∧ Ascending text low (after a) t.token.start)

/-- A rule keeps identifiers in order: those that are given before it and those that it reads. -/
def Reads
    (before : List Ident)
    (after : α → List Ident)
    (rule : Rule α) : Prop :=
  ∀ text s, ReadsFrom text s before after rule

/-- A rule never comes to an answer. -/
def Stops (rule : Rule α) : Prop :=
  ∀ s answer, rule s ≠ .ok answer

/-- A rule reads no identifiers, or it reads them in vain. -/
def Quiet (rule : Rule α) : Prop :=
  ∀ before, Reads before (fun _ => before) rule

section ReadsFrom

variable {text : List Char} {s : State} {before middle : List Ident} {after : α → List Ident}
  {rule : Rule α}

theorem ReadsFrom.bind
    {between : α → List Ident} {after : β → List Ident} {next : α → Rule β}
    (h : ReadsFrom text s before between rule)
    (hnext : ∀ a t, rule s = .ok (a, t) → ReadsFrom text t (between a) after (next a)) :
    ReadsFrom text s before after (rule >>= next) := by
  intro b u hb hclean
  rw [bind_apply] at hb
  cases hrule : rule s with
  | error fault =>
      rw [hrule] at hb
      cases hb
  | ok pair =>
      obtain ⟨a, t⟩ := pair
      rw [hrule] at hb
      obtain ⟨ht, hsecond⟩ := hnext a t hrule b u hb hclean
      obtain ⟨hs, hfirst⟩ := h a t hrule ht
      refine ⟨hs, fun hstands low hlow => ?_⟩
      obtain ⟨hstands', hlow'⟩ := hfirst hstands low hlow
      exact hsecond hstands' low hlow'

theorem ReadsFrom.of_moves
    (h : ∀ a t, rule s = .ok (a, t) → s.Moves text t ∧ (after a).Sublist before) :
    ReadsFrom text s before after rule := by
  intro a t ha hclean
  obtain ⟨hmoves, hsub⟩ := h a t ha
  obtain ⟨hs, hmoves⟩ := hmoves hclean
  refine ⟨hs, fun hstands low hlow => ?_⟩
  obtain ⟨ht, hle⟩ := hmoves hstands
  exact ⟨ht, (hlow.sublist hsub).mono hle⟩

/-- What is read is put after identifiers that stand further in front. -/
theorem ReadsFrom.frame
    (h : ReadsFrom text s before after rule)
    (front : List Ident) :
    ReadsFrom text s (front ++ before) (fun a => front ++ after a) rule := by
  intro a t ha hclean
  obtain ⟨hs, hreads⟩ := h a t ha hclean
  refine ⟨hs, fun hstands low hlow => ?_⟩
  obtain ⟨middle, hfront, hbefore⟩ := ascending_append_iff.1 hlow
  obtain ⟨ht, hafter⟩ := hreads hstands middle hbefore
  exact ⟨ht, ascending_append_iff.2 ⟨middle, hfront, hafter⟩⟩

theorem ReadsFrom.mono
    {more : List Ident} {less : α → List Ident}
    (h : ReadsFrom text s before after rule)
    (hbefore : before.Sublist more)
    (hafter : ∀ a, (less a).Sublist (after a)) :
    ReadsFrom text s more less rule := by
  intro a t ha hclean
  obtain ⟨hs, hreads⟩ := h a t ha hclean
  refine ⟨hs, fun hstands low hlow => ?_⟩
  obtain ⟨ht, hall⟩ := hreads hstands low (hlow.sublist hbefore)
  exact ⟨ht, hall.sublist (hafter a)⟩

end ReadsFrom

section Reads

variable {before : List Ident} {after : α → List Ident} {rule : Rule α}

theorem Reads.bind
    {between : α → List Ident} {after : β → List Ident} {next : α → Rule β}
    (h : Reads before between rule)
    (hnext : ∀ a, Reads (between a) after (next a)) :
    Reads before after (rule >>= next) :=
  fun text s => (h text s).bind fun a t _ => hnext a text t

/-- What the first rule reads comes after what was there, and before what the second one reads. -/
theorem Reads.bind_append
    {read : α → List Ident} {after : β → List Ident} {next : α → Rule β}
    (h : Reads [] read rule)
    (hnext : ∀ a, Reads (before ++ read a) after (next a)) :
    Reads before after (rule >>= next) := by
  intro text s
  have hfirst := (h text s).frame before
  rw [List.append_nil] at hfirst
  exact hfirst.bind fun a t _ => hnext a text t

/-- Some of what came before may be dropped. -/
theorem Reads.mono
    {more : List Ident}
    (h : Reads before after rule)
    (hbefore : before.Sublist more) :
    Reads more after rule :=
  fun text s => (h text s).mono hbefore fun a => .refl (after a)

/-- All that came before may be dropped. -/
theorem Reads.behind
    (h : Reads [] after rule)
    (front : List Ident) :
    Reads front after rule :=
  h.mono (List.nil_sublist front)

theorem Quiet.bind
    {after : β → List Ident} {next : α → Rule β}
    (h : Quiet rule)
    (hnext : ∀ a, Reads before after (next a)) :
    Reads before after (rule >>= next) :=
  (h before).bind hnext

theorem reads_pure
    {a : α}
    (h : (after a).Sublist before) :
    Reads before after (pure a) := by
  refine fun text s => .of_moves fun b t hb => ?_
  cases hb
  exact ⟨.refl text s, h⟩

theorem reads_answer
    {a : α}
    (h : after a = before) :
    Reads before after (pure a) :=
  reads_pure (h ▸ List.Sublist.refl _)

theorem Stops.bind
    {next : α → Rule β}
    (h : Stops rule) :
    Stops (rule >>= next) := by
  intro s answer hanswer
  rw [bind_apply] at hanswer
  cases hrule : rule s with
  | error fault =>
      rw [hrule] at hanswer
      cases hanswer
  | ok pair =>
      exact h s pair hrule

theorem Stops.reads
    (h : Stops rule) :
    Reads before after rule :=
  fun _ s a t ha => absurd ha (h s (a, t))

theorem stops_fail
    (fault : Fault) :
    Stops (fail fault : Rule α) :=
  fun _ _ h => by cases h

theorem stops_unexpected : Stops (unexpected : Rule α) := by
  intro s answer h
  unfold unexpected at h
  split at h <;> cases h

/-- A rule that comes back to where it was, or does not go on. -/
theorem quiet_of_moves
    (h : ∀ text s a t, rule s = .ok (a, t) → s.Moves text t) :
    Quiet rule :=
  fun _ text s => .of_moves fun a t ha => ⟨h text s a t ha, List.Sublist.refl _⟩

/-- What is only tried leaves everything as it is. -/
theorem of_ahead_eq_ok
    {s t : State} {a : α}
    (h : ahead rule s = .ok (a, t)) :
    t = s ∧ ∃ u, rule s = .ok (a, u) := by
  unfold ahead at h
  split at h
  · rename_i hrule
    cases h
    exact ⟨rfl, _, hrule⟩
  · cases h

theorem quiet_ahead
    (rule : Rule α) :
    Quiet (ahead rule) := by
  refine quiet_of_moves fun text s a t ha => ?_
  obtain ⟨rfl, -⟩ := of_ahead_eq_ok ha
  exact .refl text t

theorem Reads.attempt
    (h : Reads before after rule) :
    Reads before (fun answer => answer.elim before after) (attempt rule) := by
  intro text s answer t hanswer
  unfold Rule.attempt at hanswer
  split at hanswer
  · rename_i hrule
    cases hanswer
    exact h text s _ _ hrule
  · cases hanswer
    exact fun hclean => ⟨hclean, fun hstands _ hlow => ⟨hstands, hlow⟩⟩

/-- After a fault nothing is said, as long as reading goes on in some order. -/
theorem reads_report_bind
    {before' : List Ident} {after' : α → List Ident} {next : Unit → Rule α}
    (fault : Fault)
    (hnext : ∀ r, Reads before' after' (next r)) :
    Reads before after (report fault >>= next) := by
  intro text s a t ha hclean
  have hnoted := (hnext () text _ a t ha hclean).1.grammatical
  exact absurd hnoted (List.append_ne_nil_of_right_ne_nil _ (List.cons_ne_nil _ _))

/-- One of two ways is gone. -/
theorem reads_ite
    {c : Prop} [Decidable c] {first second : Rule α}
    (hfirst : Reads before after first)
    (hsecond : Reads before after second) :
    Reads before after (if c then first else second) := by
  split
  · exact hfirst
  · exact hsecond

/-- A step may be made before going on. -/
theorem reads_optional
    {next : Unit → Rule α} {step : Rule Unit}
    (made : Bool)
    (hstep : Quiet step)
    (hnext : ∀ r, Reads before after (next r)) :
    Reads before after (if made = true then step >>= next else next ()) := by
  split
  · exact hstep.bind hnext
  · exact hnext ()

/-- Repeating a step keeps identifiers in order if each round does. -/
theorem reads_untilDone
    {round : σ → Rule (σ ⊕ α)} {given : σ → List Ident}
    (h : ∀ state, Reads (given state) (Sum.elim given after) (round state))
    (start : σ) :
    Reads (given start) after (untilDone round start) := by
  have hrounds : ∀ rounds state, Reads (given state) after (repeatWithin round rounds state) := by
    intro rounds
    induction rounds with
    | zero =>
        exact fun state => (stops_fail _).reads
    | succ rounds ih =>
        intro state
        refine (h state).bind fun result => ?_
        cases result with
        | inl next =>
            exact ih next
        | inr answer =>
            exact reads_answer rfl
  exact fun text s => hrounds s.budget start text s

end Reads

/-! ### Steps that read no identifiers -/

theorem quiet_fail
    (fault : Fault) :
    Quiet (fail fault : Rule α) :=
  fun _ => (stops_fail fault).reads

theorem quiet_unexpected : Quiet (unexpected : Rule α) :=
  fun _ => stops_unexpected.reads

theorem quiet_token : Quiet token :=
  quiet_of_moves fun text s _ _ h => by cases h; exact .refl text s

theorem quiet_at?
    (mark : String) :
    Quiet (at? mark) :=
  quiet_of_moves fun text s _ _ h => by cases h; exact .refl text s

theorem quiet_atWord?
    (word : String) :
    Quiet (atWord? word) :=
  quiet_of_moves fun text s _ _ h => by cases h; exact .refl text s

theorem quiet_stuck? : Quiet stuck? :=
  quiet_of_moves fun text s _ _ h => by cases h; exact .refl text s

theorem quiet_report
    (fault : Fault) :
    Quiet (report fault) := by
  refine quiet_of_moves fun text s _ t h => ?_
  cases h
  exact .of_eq rfl rfl fun hclean =>
    ⟨hclean.lexical, (List.append_eq_nil_iff.1 hclean.grammatical).1⟩

theorem quiet_step : Quiet step :=
  quiet_of_moves fun text s _ _ h => by cases h; exact .next text s

theorem quiet_advance : Quiet advance := by
  intro before
  unfold advance
  refine quiet_token.bind fun here => ?_
  extract_lets jump
  have hjump : ∀ r, Reads before (fun _ => before) (jump r) := fun _ => quiet_step before
  exact reads_optional _ (quiet_report _) hjump

theorem quiet_eat
    (mark : String) :
    Quiet (eat mark) := by
  intro before
  refine (quiet_at? mark).bind fun found => ?_
  split
  · exact quiet_advance.bind fun _ => reads_answer rfl
  · exact reads_answer rfl

theorem quiet_eatWord
    (word : String) :
    Quiet (eatWord word) := by
  intro before
  refine (quiet_atWord? word).bind fun found => ?_
  split
  · exact quiet_advance.bind fun _ => reads_answer rfl
  · exact reads_answer rfl

/-- A step that answers whether it was made, where it must be made. -/
theorem quiet_orFail
    {rule : Rule Bool} {fault : Token → Fault}
    (h : Quiet rule) :
    Quiet (do if !(← rule) then fail (fault (← token)) : Rule Unit) := by
  intro before
  refine h.bind fun found => ?_
  split
  · exact quiet_token.bind fun _ => (stops_fail _).reads
  · exact reads_answer rfl

theorem quiet_expect
    (mark : String) :
    Quiet (expect mark) :=
  quiet_orFail (quiet_eat mark)

theorem quiet_expectWord
    (word : String) :
    Quiet (expectWord word) :=
  quiet_orFail (quiet_eatWord word)

theorem quiet_implicitEnd? : Quiet implicitEnd? :=
  fun _ => quiet_token.bind fun _ => reads_answer rfl

theorem quiet_endStatement : Quiet endStatement := by
  intro before
  refine quiet_implicitEnd?.bind fun ended => ?_
  extract_lets finish
  have hfinish : ∀ r, Reads before (fun _ => before) (finish r) := by
    intro r
    refine (quiet_at? ";").bind fun found => ?_
    split
    · exact quiet_advance before
    · exact reads_answer rfl
  split
  · exact (stops_fail _).bind.reads
  · exact hfinish ()

theorem quiet_checkIdentifier
    (ctx : Context)
    (here : Token) :
    Quiet (checkIdentifier ctx here) := by
  intro before
  unfold checkIdentifier
  extract_lets finish
  have hfinish : ∀ r, Reads before (fun _ => before) (finish r) := by
    intro r
    dsimp only [finish]
    split
    · exact quiet_report _ before
    · exact reads_answer rfl
  exact reads_optional _ (quiet_report _) hfinish

/-- Steps that are made for each of some items. -/
theorem quiet_forIn
    {items : List σ} {round : σ → PUnit → Rule (ForInStep PUnit)}
    (h : ∀ item r, Quiet (round item r)) :
    Quiet (forIn items PUnit.unit round) := by
  intro before
  induction items with
  | nil =>
      exact reads_answer rfl
  | cons item items ih =>
      rw [List.forIn_cons]
      refine (h item _).bind fun result => ?_
      cases result with
      | done r =>
          exact reads_answer rfl
      | yield r =>
          exact ih

/-! ### Lists and rows -/

section Items

variable {item restItem : Rule Tree} {ends : Rule Bool}

theorem reads_listUntil
    (close : String)
    (h : Reads [] Tree.idents item) :
    Reads [] (fun list => Tree.identsOf list.1) (listUntil close item) := by
  have hround : ∀ read : List Tree,
      Reads (Tree.identsOf read.reverse)
        (Sum.elim (fun read => Tree.identsOf read.reverse) fun list => Tree.identsOf list.1)
        (listRound close item read) := by
    intro read
    refine (quiet_at? close).bind fun closed => quiet_stuck?.bind fun stuck => ?_
    split
    · exact reads_answer rfl
    refine (quiet_at? ",").bind fun comma => ?_
    extract_lets finish
    have hfinish : ∀ r, Reads (Tree.identsOf read.reverse)
        (Sum.elim (fun read => Tree.identsOf read.reverse) fun list => Tree.identsOf list.1)
        (finish r) := by
      refine fun r => quiet_advance.bind fun _ => (quiet_at? close).bind fun closed => ?_
      split
      · exact reads_answer rfl
      · exact h.bind_append fun tree => reads_pure (by simp)
    split
    · exact quiet_token.bind fun _ => (stops_fail _).bind.reads
    · exact hfinish ()
  refine (quiet_at? close).bind fun closed => quiet_stuck?.bind fun stuck => ?_
  split
  · exact reads_answer rfl
  · refine h.bind fun first => ?_
    have hrounds := reads_untilDone hround [first]
    simpa using hrounds

theorem reads_restListUntil
    (close : String)
    (late : Fault)
    (hitem : Reads [] Tree.idents item)
    (hrest : Reads [] Tree.idents restItem) :
    Reads [] Tree.identsOf (restListUntil close item restItem late) := by
  let given (list : RestList) := Tree.identsOf (list.read.reverse ++ list.rest.toList)
  have hround : ∀ list, Reads (given list) (Sum.elim given Tree.identsOf)
      (restListRound close item restItem late list) := by
    intro list
    unfold restListRound
    extract_lets done read readChecked finish afterComma
    have hread : ∀ before after,
        (∀ tree, (after (.inl { list with rest := some tree, first := false })).Sublist
          (before ++ tree.idents)) →
        (∀ tree, (after (.inl { list with read := tree :: list.read, first := false })).Sublist
          (before ++ tree.idents)) →
        ∀ r, Reads before after (read r) := by
      intro before after hafterRest hafterItem r
      refine (quiet_at? "...").bind fun dots => ?_
      split
      · exact hrest.bind_append fun tree => reads_pure (hafterRest tree)
      · exact hitem.bind_append fun tree => reads_pure (hafterItem tree)
    have hreadChecked : ∀ r, Reads (given list) (Sum.elim given Tree.identsOf) (readChecked r) := by
      intro r
      dsimp only [readChecked]
      split
      · exact reads_report_bind late (hread [] (fun _ => []) (by simp) (by simp))
      · rename_i hnone
        have hnone : list.rest = none := by simpa using hnone
        exact hread _ _ (by simp [given, hnone]) (by simp [given, hnone]) ()
    have hafterComma : ∀ r, Reads (given list) (Sum.elim given Tree.identsOf) (afterComma r) := by
      refine fun r => quiet_advance.bind fun _ => (quiet_at? close).bind fun closed => ?_
      split
      · exact reads_optional _ (quiet_report _) fun _ => reads_answer rfl
      · exact hreadChecked ()
    refine (quiet_at? close).bind fun closed => quiet_stuck?.bind fun stuck => ?_
    split
    · exact reads_answer rfl
    split
    · refine (quiet_at? ",").bind fun comma => ?_
      split
      · exact quiet_token.bind fun _ => (stops_fail _).bind.reads
      · exact hafterComma ()
    · exact hreadChecked ()
  exact reads_untilDone hround ⟨[], none, true⟩

theorem reads_rowUntil
    (hends : Quiet ends)
    (h : Reads [] Tree.idents item) :
    Reads [] Tree.identsOf (rowUntil ends item) := by
  have hround : ∀ read : List Tree,
      Reads (Tree.identsOf read.reverse)
        (Sum.elim (fun read => Tree.identsOf read.reverse) Tree.identsOf)
        (rowRound ends item read) := by
    intro read
    refine quiet_stuck?.bind fun stuck => hends.bind fun ended => ?_
    split
    · exact reads_answer rfl
    · exact h.bind_append fun tree => reads_pure (by simp)
  exact reads_untilDone hround []

end Items

/-! ### Names -/

section Names

variable {text : List Char} {s : State} {ctx : Context} {after : α → List Ident}

theorem kind_eq_word_of_isIdentifier
    {token : Token}
    (h : token.isIdentifier = true) :
    token.kind = .word := by
  simp [Token.isIdentifier] at h
  exact h.1

/-- Going past a word adds its identifier. -/
theorem readsFrom_step
    (before : List Ident)
    (hword : s.token.kind = .word) :
    ReadsFrom text s before (fun _ => before ++ [s.token.ident]) step := by
  intro _ t hstep hclean
  cases hstep
  obtain ⟨hs, -⟩ := State.Moves.next text s hclean
  refine ⟨hs, fun hstands low hlow => ?_⟩
  obtain ⟨ht, hle⟩ := hstands.next hclean.lexical
  refine ⟨ht, ascending_append_iff.2 ⟨_, hlow, ?_⟩⟩
  exact ⟨Nat.le_refl _, hstands.spelledIn hword, hle⟩

theorem readsFrom_takeIdent
    (before : List Ident)
    (hword : s.token.kind = .word) :
    ReadsFrom text s before (fun id => before ++ [id]) takeIdent := by
  refine (quiet_token before text s).bind fun here t hhere => ?_
  cases hhere
  exact (readsFrom_step before hword).bind fun _ t _ => reads_answer (by rfl) text t

theorem token_eq_of_checkIdentifier
    {here : Token} {r : Unit} {t : State}
    (h : checkIdentifier ctx here s = .ok (r, t)) :
    t.token = s.token := by
  unfold checkIdentifier at h
  split at h <;> split at h <;> cases h <;> rfl

/-- A token that can be an identifier is checked and then read as one. -/
theorem readsFrom_checkedIdent
    {next : Ident → Rule α}
    (hidentifier : s.token.isIdentifier = true)
    (hnext : ∀ id, Reads [id] after (next id)) :
    ReadsFrom text s [] after (do checkIdentifier ctx s.token; next (← takeIdent)) := by
  refine (quiet_checkIdentifier ctx s.token [] text s).bind fun _ t hchecked => ?_
  have hword : t.token.kind = .word := by
    rw [token_eq_of_checkIdentifier hchecked]
    exact kind_eq_word_of_isIdentifier hidentifier
  exact (readsFrom_takeIdent [] hword).bind fun id u _ => hnext id text u

theorem reads_identifierReference
    (ctx : Context) :
    Reads [] Tree.idents (identifierReference ctx) := by
  intro text s
  refine (quiet_token [] text s).bind fun here t hhere => ?_
  cases hhere
  extract_lets finish
  split
  · exact stops_unexpected.bind.reads text s
  · rename_i hidentifier
    have hidentifier : s.token.isIdentifier = true := by simpa using hidentifier
    exact readsFrom_checkedIdent hidentifier fun id => reads_answer (by simp)

theorem reads_bindingIdentifier
    (ctx : Context) :
    Reads [] Tree.idents (bindingIdentifier ctx) := by
  intro text s
  refine (quiet_token [] text s).bind fun here t hhere => ?_
  cases hhere
  extract_lets finish check
  split
  · exact (stops_fail _).bind.reads text s
  dsimp only [check]
  split
  · exact stops_unexpected.bind.reads text s
  · rename_i hidentifier
    have hidentifier : s.token.isIdentifier = true := by simpa using hidentifier
    exact readsFrom_checkedIdent hidentifier fun id => reads_answer (by simp)

/-- The identifier that a token would be, if it is a word. -/
def wordIdents (token : Token) : List Ident :=
  if token.kind = .word then [token.ident] else []

theorem wordIdents_of_isIdentifier
    {token : Token}
    (h : token.isIdentifier = true) :
    wordIdents token = [token.ident] :=
  if_pos (kind_eq_word_of_isIdentifier h)

/-- Going past a word that is no variable leaves room for an identifier. -/
theorem readsFrom_wordLeaf
    (before : List Ident) :
    ReadsFrom text s before (fun tree => before ++ wordIdents s.token ++ tree.idents) wordLeaf := by
  refine (quiet_token before text s).bind fun here t hhere => ?_
  cases hhere
  extract_lets finish
  split
  · exact stops_unexpected.bind.reads text s
  · rename_i hword
    have hword : s.token.kind = .word := by simpa using hword
    refine (readsFrom_step before hword).bind fun _ t _ => reads_answer ?_ text t
    simp [wordIdents, hword]

theorem readsFrom_tokenLeaf
    (before : List Ident)
    (hword : s.token.kind ≠ .word) :
    ReadsFrom text s before (fun tree => before ++ wordIdents s.token ++ tree.idents)
      tokenLeaf := by
  refine (quiet_token before text s).bind fun here t hhere => ?_
  cases hhere
  refine (quiet_advance before text s).bind fun _ t _ => reads_answer ?_ text t
  simp [wordIdents, hword]

theorem reads_wordLeaf : Reads [] Tree.idents wordLeaf :=
  fun _ _ => (readsFrom_wordLeaf []).mono (List.Sublist.refl _) fun _ =>
    List.sublist_append_right _ _

theorem reads_tokenLeaf : Reads [] Tree.idents tokenLeaf :=
  quiet_token.bind fun _ => quiet_advance.bind fun _ => reads_answer (by simp)

end Names

end Rule

open Rule

/-- The rules of all goals keep identifiers in order. -/
def Rules.InOrder (rules : Rules) : Prop :=
  ∀ goal ctx, Reads [] Tree.idents (rules goal ctx)

namespace Rule

variable {text : List Char} {s : State} {rules : Rules}

/-- The name of a property leaves room for an identifier if it is a word. -/
theorem readsFrom_propertyName
    (h : rules.InOrder)
    (ctx : Context)
    (before : List Ident) :
    ReadsFrom text s before (fun key => before ++ wordIdents s.token ++ key.idents)
      (propertyName rules ctx) := by
  refine (quiet_token before text s).bind fun here t hhere => ?_
  cases hhere
  split
  · rename_i hliteral
    refine readsFrom_tokenLeaf before fun hword => ?_
    simp [Token.isNumberOrString, hword] at hliteral
  split
  · rename_i hbracket
    have hnone : wordIdents s.token = [] := by
      refine if_neg fun hword => ?_
      simp [Token.isPunctuator, hword] at hbracket
    rw [hnone]
    refine quiet_advance.bind (fun _ => (h _ _).bind_append fun key => ?_) text s
    exact (quiet_expect "]").bind fun _ => reads_answer (by simp)
  · exact readsFrom_wordLeaf before

theorem reads_propertyName
    (h : rules.InOrder)
    (ctx : Context) :
    Reads [] Tree.idents (propertyName rules ctx) :=
  fun _ _ => (readsFrom_propertyName h ctx []).mono (List.Sublist.refl _) fun _ =>
    List.sublist_append_right _ _

end Rule

end Script
end FeatureProbes
