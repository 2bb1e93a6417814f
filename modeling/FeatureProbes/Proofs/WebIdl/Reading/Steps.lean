import FeatureProbes.Proofs.WebIdl.Reading.Scanning

/-!
# Reading words

What a parser takes from a text is stated about words: the parser reads some words in front of
others, and gives a value.  There is a rule for each way in which parsers are put together, so a
proof about a parser follows its text.

A bound on the number of tokens is kept along.  Parsers of nested constructs work up to a bound,
and the bound falls by one where a word is entered.
-/

namespace FeatureProbes
namespace WebIdl

namespace Word

def isName (word : Word) : Bool :=
  match word.kind with
  | .name _ => true
  | _ => false

def isWord (word : Word) (text : String) : Bool :=
  word.isName && word.text == text

def isMark (word : Word) (text : String) : Bool :=
  word.kind == .mark && word.text == text

@[simp] theorem isName_name (text : String) : (name text).isName = true := rfl

@[simp] theorem isName_mark (text : String) : (mark text).isName = false := rfl

@[simp] theorem isWord_name (text other : String) : (name text).isWord other = (text == other) := by
  simp [isWord, name, isName]

@[simp] theorem isWord_mark (text other : String) : (mark text).isWord other = false := rfl

@[simp] theorem isMark_mark (text other : String) : (mark text).isMark other = (text == other) := by
  simp [isMark, mark]

@[simp] theorem isMark_name (text other : String) : (name text).isMark other = false := by
  simp [isMark, name]

@[simp] theorem isMark_integer (text other : String) : (integer text).isMark other = false := rfl

@[simp] theorem isMark_decimal (text other : String) : (decimal text).isMark other = false := rfl

@[simp] theorem isMark_string (text other : String) : (string text).isMark other = false := rfl

@[simp] theorem isMark_ellipsis (other : String) : ellipsis.isMark other = false := rfl

end Word

namespace Parser

variable {α β γ δ : Type}

/-- A parser reads some words in front of others.  What it gives shows the same as a value. -/
structure ReadsUpTo
    (view : α → β)
    (bound : Nat)
    (parser : Parser α)
    (words : List Word)
    (value : α)
    (next : List Word) : Prop where
  scannable : ∀ word ∈ words, word.IsScannable
  run : ∀ tokens rest, tokens.map Token.word = words → rest.map Token.word = next →
    (tokens ++ rest).length ≤ bound →
      ∃ found, parser (tokens ++ rest) = .ok (found, rest) ∧ view found = view value

/-- A parser reads some words in front of others and gives a value. -/
abbrev Reads
    (bound : Nat)
    (parser : Parser α)
    (words : List Word)
    (value : α)
    (next : List Word) : Prop :=
  ReadsUpTo id bound parser words value next

section Rules

variable {view : α → γ} {view' : β → δ} {bound : Nat} {parser : Parser α} {next : List Word}
  {after : α → Parser β} {words words' : List Word} {value : α} {result : β} {word : Word}

theorem ReadsUpTo.bind
    (h : ReadsUpTo view bound parser words value (words' ++ next))
    (hafter : ∀ found, view found = view value →
      ReadsUpTo view' bound (after found) words' result next) :
    ReadsUpTo view' bound (parser >>= after) (words ++ words') result next := by
  refine ⟨?_, ?_⟩
  · intro word hword
    rcases List.mem_append.1 hword with hword | hword
    · exact h.scannable word hword
    · exact (hafter value rfl).scannable word hword
  · intro tokens rest htokens hrest hbound
    obtain ⟨first, second, rfl, hfirst, hsecond⟩ := List.map_eq_append_iff.1 htokens
    have hnext : (second ++ rest).map Token.word = words' ++ next := by
      rw [List.map_append, hsecond, hrest]
    rw [List.append_assoc] at hbound
    obtain ⟨found, hfound, hview⟩ := h.run first (second ++ rest) hfirst hnext hbound
    have hsmall : (second ++ rest).length ≤ bound := by
      rw [List.length_append] at hbound
      omega
    obtain ⟨final, hfinal, hview'⟩ := (hafter found hview).run second rest hsecond hrest hsmall
    refine ⟨final, ?_, hview'⟩
    rw [List.append_assoc]
    change Except.bind (parser (first ++ (second ++ rest))) _ = _
    rw [hfound]
    exact hfinal

theorem Reads.bind
    (h : Reads bound parser words value (words' ++ next))
    (hafter : ReadsUpTo view' bound (after value) words' result next) :
    ReadsUpTo view' bound (parser >>= after) (words ++ words') result next :=
  ReadsUpTo.bind h fun found hfound => by rwa [show found = value from hfound]

/-- A parser that takes nothing, and one that goes on. -/
theorem Reads.peek
    (h : Reads bound parser [] value (words ++ next))
    (hafter : ReadsUpTo view' bound (after value) words result next) :
    ReadsUpTo view' bound (parser >>= after) words result next :=
  Reads.bind h hafter

theorem Reads.upTo
    (view : α → γ)
    (h : Reads bound parser words value next) :
    ReadsUpTo view bound parser words value next := by
  refine ⟨h.scannable, ?_⟩
  intro tokens rest htokens hrest hbound
  obtain ⟨found, hfound, hvalue⟩ := h.run tokens rest htokens hrest hbound
  exact ⟨found, hfound, congrArg view hvalue⟩

theorem ReadsUpTo.peek
    (h : ReadsUpTo view bound parser [] value (words ++ next))
    (hafter : ∀ found, view found = view value →
      ReadsUpTo view' bound (after found) words result next) :
    ReadsUpTo view' bound (parser >>= after) words result next :=
  h.bind hafter

/-- A parser that takes one word, and one that goes on. -/
theorem Reads.step
    (h : Reads bound parser [word] value (words ++ next))
    (hafter : ReadsUpTo view' bound (after value) words result next) :
    ReadsUpTo view' bound (parser >>= after) (word :: words) result next :=
  Reads.bind h hafter

/-- Behind the first word there are fewer tokens. -/
theorem Reads.enter
    (h : Reads (bound + 1) parser [word] value (words ++ next))
    (hafter : ReadsUpTo view' bound (after value) words result next) :
    ReadsUpTo view' (bound + 1) (parser >>= after) (word :: words) result next := by
  refine ⟨?_, ?_⟩
  · intro other hother
    rcases List.mem_cons.1 hother with rfl | hother
    · exact h.scannable other List.mem_cons_self
    · exact hafter.scannable other hother
  · intro tokens rest htokens hrest hbound
    cases tokens with
    | nil =>
        cases htokens
    | cons token tokens =>
        obtain ⟨hword, htokens⟩ := List.cons.inj htokens
        have hnext : (tokens ++ rest).map Token.word = words ++ next := by
          rw [List.map_append, htokens, hrest]
        obtain ⟨found, hfound, hvalue⟩ :=
          h.run [token] (tokens ++ rest) (congrArg (· :: []) hword) hnext hbound
        have hsmall : (tokens ++ rest).length ≤ bound := Nat.le_of_succ_le_succ hbound
        obtain ⟨final, hfinal, hview⟩ := hafter.run tokens rest htokens hrest hsmall
        refine ⟨final, ?_, hview⟩
        change Except.bind (parser ([token] ++ (tokens ++ rest))) _ = _
        rw [hfound, show found = value from hvalue]
        exact hfinal

/-- No token is left for a word where there must be none. -/
theorem ReadsUpTo.zero
    {parser' : Parser α}
    (h : ReadsUpTo view bound parser (word :: words) value next) :
    ReadsUpTo view 0 parser' (word :: words) value next := by
  refine ⟨h.scannable, ?_⟩
  intro tokens rest htokens hrest hbound
  cases tokens with
  | nil =>
      cases htokens
  | cons token tokens =>
      cases hbound

theorem readsUpTo_pure
    {found : α}
    (h : view found = view value) :
    ReadsUpTo view bound (pure found) [] value next := by
  refine ⟨by simp, ?_⟩
  intro tokens rest htokens hrest hbound
  rw [List.map_eq_nil_iff.1 htokens]
  exact ⟨found, rfl, h⟩

theorem reads_pure
    (value : α) :
    Reads bound (pure value) [] value next :=
  readsUpTo_pure rfl

/-- What goes on with the value of a parser takes nothing. -/
theorem ReadsUpTo.finish
    (h : ReadsUpTo view bound parser words value next)
    (hafter : ∀ found, view found = view value →
      ReadsUpTo view' bound (after found) [] result next) :
    ReadsUpTo view' bound (parser >>= after) words result next := by
  have hnext : ReadsUpTo view bound parser words value ([] ++ next) := h
  have hboth := hnext.bind hafter
  rwa [List.append_nil] at hboth

theorem ReadsUpTo.last
    {f : α → β}
    (h : ReadsUpTo view bound parser words value next)
    (hf : ∀ found, view found = view value → view' (f found) = view' result) :
    ReadsUpTo view' bound (do return f (← parser)) words result next :=
  h.finish fun found hfound => readsUpTo_pure (hf found hfound)

theorem Reads.last
    (f : α → β)
    (h : Reads bound parser words value next) :
    Reads bound (do return f (← parser)) words (f value) next :=
  ReadsUpTo.last h fun _ hfound => congrArg f hfound

theorem Reads.map
    (f : α → β)
    (h : Reads bound parser words value next) :
    Reads bound (f <$> parser) words (f value) next := by
  rw [← bind_pure_comp]
  exact h.last f

/-- A parser that looks at the number of tokens may rely on those for the words. -/
theorem readsUpTo_get
    {after : List Token → Parser β}
    (h : ∀ state : List Token, (words ++ next).length ≤ state.length →
      ReadsUpTo view' bound (after state) words result next) :
    ReadsUpTo view' bound (get >>= after) words result next := by
  refine ⟨?_, ?_⟩
  · have hstate := h ((words ++ next).map fun word => ⟨word.kind, word.text, 0⟩) (by simp)
    exact hstate.scannable
  · intro tokens rest htokens hrest hbound
    have hlength : (words ++ next).length ≤ (tokens ++ rest).length := by
      simp [← htokens, ← hrest]
    exact (h (tokens ++ rest) hlength).run tokens rest htokens hrest hbound

end Rules

/-! ## Single words -/

section Words

variable {bound : Nat} {next : List Word}

/-- A parser that only looks at the tokens reads nothing. -/
theorem reads_look
    {view : List Token → α} {value : α}
    (h : ∀ rest : List Token, rest.map Token.word = next → view rest = value) :
    Reads bound (do return view (← get)) [] value next := by
  refine ⟨by simp, ?_⟩
  intro tokens rest htokens hrest hbound
  rw [List.map_eq_nil_iff.1 htokens]
  exact ⟨view rest, rfl, h rest hrest⟩

theorem any_head?_word
    {rest : List Token} {p : Token → Bool} {q : Word → Bool}
    (hrest : rest.map Token.word = next)
    (h : ∀ token : Token, p token = q token.word) :
    rest.head?.any p = next.head?.any q := by
  subst hrest
  cases rest with
  | nil =>
      rfl
  | cons token rest =>
      exact h token

theorem reads_atMark
    (mark : String) :
    Reads bound (atMark mark) [] (next.head?.any fun word => word.isMark mark) next :=
  reads_look fun _ hrest => any_head?_word hrest fun _ => rfl

theorem reads_atWord
    (word : String) :
    Reads bound (atWord word) [] (next.head?.any fun other => other.isWord word) next :=
  reads_look fun _ hrest => any_head?_word hrest fun _ => rfl

theorem reads_atName :
    Reads bound atName [] (next.head?.any Word.isName) next :=
  reads_look fun _ hrest => any_head?_word hrest fun _ => rfl

theorem reads_atKind
    (kind : TokenKind) :
    Reads bound (atKind kind) [] (next.head?.any fun word => word.kind == kind) next :=
  reads_look fun _ hrest => any_head?_word hrest fun _ => rfl

theorem reads_nextIsWord
    (word : String) :
    Reads bound (nextIsWord word) [] (next.tail.head?.any fun other => other.isWord word) next :=
  reads_look fun _ hrest => any_head?_word (hrest ▸ List.map_tail) fun _ => rfl

theorem reads_nextIsMark
    (mark : String) :
    Reads bound (nextIsMark mark) [] (next.tail.head?.any fun other => other.isMark mark) next :=
  reads_look fun _ hrest => any_head?_word (hrest ▸ List.map_tail) fun _ => rfl

/-- A parser that takes a token and looks at what it says. -/
theorem reads_one
    {parser : Parser α} {word : Word} {value : α}
    (hword : word.IsScannable)
    (h : ∀ token rest, token.word = word → parser (token :: rest) = .ok (value, rest)) :
    Reads bound parser [word] value next := by
  refine ⟨by simpa using hword, ?_⟩
  intro tokens rest htokens hrest hbound
  obtain ⟨token, more, rfl, htoken, hmore⟩ := List.map_eq_cons_iff.1 htokens
  rw [List.map_eq_nil_iff.1 hmore]
  exact ⟨value, h token rest htoken, rfl⟩

theorem reads_skip
    {word : Word}
    (hword : word.IsScannable) :
    Reads bound skip [word] () next :=
  reads_one hword fun _ _ _ => rfl

theorem reads_atMark_of
    {mark : String}
    (answer : Bool)
    (h : (next.head?.any fun word => word.isMark mark) = answer) :
    Reads bound (atMark mark) [] answer next :=
  h ▸ reads_atMark mark

theorem reads_atKind_of
    {kind : TokenKind}
    (answer : Bool)
    (h : (next.head?.any fun word => word.kind == kind) = answer) :
    Reads bound (atKind kind) [] answer next :=
  h ▸ reads_atKind kind

theorem reads_atWord_of
    {word : String}
    (answer : Bool)
    (h : (next.head?.any fun other => other.isWord word) = answer) :
    Reads bound (atWord word) [] answer next :=
  h ▸ reads_atWord word

theorem reads_nextIsMark_of
    {mark : String}
    (answer : Bool)
    (h : (next.tail.head?.any fun word => word.isMark mark) = answer) :
    Reads bound (nextIsMark mark) [] answer next :=
  h ▸ reads_nextIsMark mark

theorem reads_eatMark
    {mark : String}
    (hmark : (Word.mark mark).IsScannable) :
    Reads bound (eatMark mark) [.mark mark] true next :=
  (reads_atMark_of true (by simp)).peek ((reads_skip hmark).step (reads_pure true))

theorem reads_eatMark_of_not
    {mark : String}
    (h : (next.head?.any fun word => word.isMark mark) = false) :
    Reads bound (eatMark mark) [] false next :=
  (reads_atMark_of false h).peek (reads_pure false)

theorem reads_eatWord
    {word : String}
    (hword : (Word.name word).IsScannable) :
    Reads bound (eatWord word) [.name word] true next :=
  (reads_atWord_of true (by simp)).peek ((reads_skip hword).step (reads_pure true))

theorem reads_eatWord_of_not
    {word : String}
    (h : (next.head?.any fun other => other.isWord word) = false) :
    Reads bound (eatWord word) [] false next :=
  (reads_atWord_of false h).peek (reads_pure false)

theorem reads_optionalWord
    {given : Bool} {word : String}
    (hword : (Word.name word).IsScannable)
    (h : (next.head?.any fun other => other.isWord word) = false) :
    Reads bound (eatWord word) (optionalWord given word) given next := by
  cases given with
  | true =>
      exact reads_eatWord hword
  | false =>
      exact reads_eatWord_of_not h

theorem reads_expectMark
    {mark : String}
    (hmark : (Word.mark mark).IsScannable) :
    Reads bound (expectMark mark) [.mark mark] () next :=
  (reads_eatMark hmark).step (reads_pure ())

theorem reads_identifier
    {text : String}
    (htext : (Word.name text).IsScannable) :
    Reads bound identifier [.name text] text next := by
  refine reads_one htext ?_
  rintro ⟨kind, _, line⟩ rest hword
  cases hword
  rfl

theorem reads_stringValue
    {text : String}
    (htext : (Word.string text).IsScannable) :
    Reads bound stringValue [.string text] text next := by
  refine reads_one htext ?_
  rintro ⟨kind, _, line⟩ rest hword
  cases hword
  rfl

end Words

/-! ## Rows -/

section Rows

variable {bound : Nat} {next : List Word} {item : Parser α} {words : α → List Word}

theorem length_le_flatMap
    {words : α → List Word} {items : List α}
    (h : ∀ value ∈ items, words value ≠ []) :
    items.length ≤ (items.flatMap words).length := by
  induction items with
  | nil =>
      simp
  | cons first rest ih =>
      have hrest := ih fun value hvalue => h value (List.mem_cons_of_mem first hvalue)
      have hfirst := List.length_pos_iff.2 (h first List.mem_cons_self)
      rw [List.flatMap_cons, List.length_append, List.length_cons]
      omega

/-- Behind an item of a row stands a separator or the word that ends the row. -/
theorem exists_next_of_row
    (words : α → List Word)
    (between stop : Word)
    (items : List α)
    (next : List Word) :
    ∃ word ∈ [between, stop], ∃ more,
      (items.flatMap fun value => between :: words value) ++ stop :: next = word :: more := by
  cases items with
  | nil =>
      exact ⟨stop, by simp, next, rfl⟩
  | cons first rest =>
      exact ⟨between, by simp, _, rfl⟩

/-- Each further item stands behind a separator, and a word that is none follows the last one. -/
theorem reads_moreWithin
    {separator : Parser Bool} {between stop : Word} {items : List α} {rounds : Nat}
    (hseparator : ∀ more, Reads bound separator [between] true more)
    (hstop : Reads bound separator [] false (stop :: next))
    (hitem : ∀ value ∈ items, ∀ word ∈ [between, stop], ∀ more,
      Reads bound item (words value) value (word :: more))
    (hrounds : items.length < rounds) :
    Reads bound (moreWithin separator item rounds)
      (items.flatMap fun value => between :: words value) items (stop :: next) := by
  induction items generalizing rounds with
  | nil =>
      obtain ⟨rounds, rfl⟩ : ∃ more, rounds = more + 1 := ⟨rounds - 1, by
        rw [List.length_nil] at hrounds
        omega⟩
      exact hstop.peek (reads_pure [])
  | cons first rest ih =>
      rw [List.length_cons] at hrounds
      obtain ⟨rounds, rfl⟩ : ∃ more, rounds = more + 1 := ⟨rounds - 1, by omega⟩
      have hrest := ih (fun value hvalue => hitem value (List.mem_cons_of_mem first hvalue))
        (Nat.lt_of_succ_lt_succ hrounds)
      obtain ⟨word, hword, more, hmore⟩ := exists_next_of_row words between stop rest next
      have hfirst := hitem first List.mem_cons_self word hword more
      rw [← hmore] at hfirst
      rw [List.flatMap_cons, List.cons_append]
      exact (hseparator _).step (hfirst.bind (hrest.last _))

theorem length_le_rowRest
    (words : α → List Word)
    (separator : Word)
    (items : List α) :
    items.length ≤ (items.flatMap fun value => separator :: words value).length :=
  length_le_flatMap fun _ _ => List.cons_ne_nil _ _

theorem reads_separated
    {separator : Parser Bool} {between stop : Word} {items : List α}
    (hsome : items ≠ [])
    (hseparator : ∀ more, Reads bound separator [between] true more)
    (hstop : Reads bound separator [] false (stop :: next))
    (hitem : ∀ value ∈ items, ∀ word ∈ [between, stop], ∀ more,
      Reads bound item (words value) value (word :: more)) :
    Reads bound (separated separator item) (rowWords between words items) items (stop :: next) := by
  cases items with
  | nil =>
      exact absurd rfl hsome
  | cons first rest =>
      obtain ⟨word, hword, more, hmore⟩ := exists_next_of_row words between stop rest next
      have hfirst := hitem first List.mem_cons_self word hword more
      rw [← hmore] at hfirst
      refine hfirst.bind (readsUpTo_get fun state hstate => ?_)
      have hlength := length_le_rowRest words between rest
      rw [List.length_append] at hstate
      have hrest := reads_moreWithin hseparator hstop
        (fun value hvalue => hitem value (List.mem_cons_of_mem first hvalue))
        (show rest.length < state.length + 1 by omega)
      exact hrest.last _

/-- Items with commas between them, up to a closing mark, which begins none of them. -/
theorem reads_commaListWithin
    {close : String} {items : List α} {rounds : Nat}
    (hcomma : close ≠ ",")
    (hstart : ∀ value ∈ items, ∀ more,
      ((words value ++ more).head?.any fun word => word.isMark close) = false)
    (hitem : ∀ value ∈ items, ∀ word ∈ [.mark ",", .mark close], ∀ more,
      Reads bound item (words value) value (word :: more))
    (hrounds : items.length < rounds) :
    Reads bound (commaListWithin close item rounds) (rowWords (.mark ",") words items) items
      (.mark close :: next) := by
  induction items generalizing rounds with
  | nil =>
      obtain ⟨rounds, rfl⟩ : ∃ more, rounds = more + 1 := ⟨rounds - 1, by
        rw [List.length_nil] at hrounds
        omega⟩
      exact (reads_atMark_of true (by simp [rowWords])).peek (reads_pure [])
  | cons first rest ih =>
      rw [List.length_cons] at hrounds
      obtain ⟨rounds, rfl⟩ : ∃ more, rounds = more + 1 := ⟨rounds - 1, by omega⟩
      obtain ⟨word, hword, more, hmore⟩ :=
        exists_next_of_row words (.mark ",") (.mark close) rest next
      have hfirst := hitem first List.mem_cons_self word hword more
      rw [← hmore] at hfirst
      have hopen : Reads bound (atMark close) [] false
          (rowWords (.mark ",") words (first :: rest) ++ .mark close :: next) := by
        refine reads_atMark_of false ?_
        rw [rowWords, List.append_assoc]
        exact hstart first List.mem_cons_self _
      refine hopen.peek (hfirst.bind ?_)
      cases rest with
      | nil =>
          exact (reads_eatMark_of_not (by simpa using hcomma)).peek (reads_pure _)
      | cons second more =>
          have hrest := ih
            (fun value hvalue => hstart value (List.mem_cons_of_mem first hvalue))
            (fun value hvalue => hitem value (List.mem_cons_of_mem first hvalue))
            (Nat.lt_of_succ_lt_succ hrounds)
          exact (reads_eatMark (by decide)).step (hrest.last _)

theorem reads_commaList
    {close : String} {items : List α}
    (hclose : (Word.mark close).IsScannable)
    (hcomma : close ≠ ",")
    (hstart : ∀ value ∈ items, ∀ more,
      ((words value ++ more).head?.any fun word => word.isMark close) = false)
    (hitem : ∀ value ∈ items, ∀ word ∈ [.mark ",", .mark close], ∀ more,
      Reads bound item (words value) value (word :: more)) :
    Reads bound (commaList close item) (closedRowWords close words items) items next := by
  refine readsUpTo_get fun state hstate => ?_
  have hlength : items.length ≤ (closedRowWords close words items).length := by
    cases items with
    | nil =>
        simp
    | cons first rest =>
        have hrest := length_le_rowRest words (.mark ",") rest
        simp only [closedRowWords, rowWords, List.length_append, List.length_cons,
          List.length_nil] at hrest ⊢
        omega
  rw [List.length_append] at hstate
  have hitems : Reads bound (commaListWithin close item (state.length + 1))
      (rowWords (.mark ",") words items) items ([.mark close] ++ next) :=
    reads_commaListWithin hcomma hstart hitem (by omega)
  exact hitems.bind ((reads_expectMark hclose).step (reads_pure items))

theorem readsUpTo_untilWithin
    {view : α → β} {ends : Parser Bool} {items : List α} {rounds : Nat}
    (hend : Reads bound ends [] true next)
    (hmore : ∀ value ∈ items, ∀ more, Reads bound ends [] false (words value ++ more))
    (hitem : ∀ value ∈ items, ∀ more, ReadsUpTo view bound item (words value) value more)
    (hrounds : items.length < rounds) :
    ReadsUpTo (List.map view) bound (untilWithin ends item rounds) (items.flatMap words) items
      next := by
  induction items generalizing rounds with
  | nil =>
      obtain ⟨rounds, rfl⟩ : ∃ more, rounds = more + 1 := ⟨rounds - 1, by
        rw [List.length_nil] at hrounds
        omega⟩
      exact hend.peek (readsUpTo_pure rfl)
  | cons first rest ih =>
      rw [List.length_cons] at hrounds
      obtain ⟨rounds, rfl⟩ : ∃ more, rounds = more + 1 := ⟨rounds - 1, by omega⟩
      have hrest := ih
        (fun value hvalue => hmore value (List.mem_cons_of_mem first hvalue))
        (fun value hvalue => hitem value (List.mem_cons_of_mem first hvalue))
        (Nat.lt_of_succ_lt_succ hrounds)
      have hopen := hmore first List.mem_cons_self (rest.flatMap words ++ next)
      rw [← List.append_assoc, ← List.flatMap_cons] at hopen
      refine hopen.peek ?_
      rw [List.flatMap_cons]
      refine (hitem first List.mem_cons_self _).bind fun found hfound => ?_
      refine hrest.last fun others hothers => ?_
      rw [List.map_cons, List.map_cons, hfound, hothers]

/-- Items up to a place where they end.  Each of them has a word. -/
theorem readsUpTo_itemsUntil
    {view : α → β} {ends : Parser Bool} {items : List α}
    (hend : Reads bound ends [] true next)
    (hmore : ∀ value ∈ items, ∀ more, Reads bound ends [] false (words value ++ more))
    (hwords : ∀ value ∈ items, words value ≠ [])
    (hitem : ∀ value ∈ items, ∀ more, ReadsUpTo view bound item (words value) value more) :
    ReadsUpTo (List.map view) bound (itemsUntil ends item) (items.flatMap words) items next := by
  refine readsUpTo_get fun state hstate => ?_
  have hlength := length_le_flatMap hwords
  rw [List.length_append] at hstate
  exact readsUpTo_untilWithin hend hmore hitem (by omega)

end Rows

end Parser
end WebIdl
end FeatureProbes
