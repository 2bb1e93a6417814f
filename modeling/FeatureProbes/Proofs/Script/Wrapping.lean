import FeatureProbes.Proofs.Script.Locality.Lexemes
import FeatureProbes.Script.Wrapper

/-!
# Wrapped scripts keep their tokens

A script is read token by token.  What the characters at a place are depends on the grammar in three
cases: a slash can begin a regular expression, a brace can go on with a template, and a right angle
can begin a longer operator.  In whatever way a body is read, the function around it is read in the
same way, with the same tokens between those of the function: they keep their kinds, their values
and the line ends between them.  This holds as long as no token has a line feed in it; a line that
begins inside of a token is indented like any other.
-/

namespace FeatureProbes
namespace Script

open Text Reading

/-! ## Blanks and comments -/

/-- What skipping reaches, without the count of what it skips. -/
def skip (mode : TriviaMode) (newline : Bool) (text : List Char) : Skipped :=
  { skipTrivia mode 0 newline text with count := 0 }

section Skip

variable {mode : TriviaMode} {newline : Bool} {c : Char} {ending blanks text text' : List Char}

theorem skip_eq
    (mode : TriviaMode)
    (count count' : Nat)
    (newline : Bool)
    (text : List Char) :
    ({ skipTrivia mode count newline text with count := 0 } : Skipped) =
      { skipTrivia mode count' newline text with count := 0 } := by
  induction text generalizing mode count count' newline with
  | nil =>
      rw [skipTrivia, skipTrivia]
  | cons c text ih =>
      cases mode with
      | between | line | block =>
          rw [skipTrivia, skipTrivia]
          split_ifs
          all_goals first | exact ih _ _ _ _ | rfl
      | opening | closing =>
          rw [skipTrivia, skipTrivia]
          exact ih _ _ _ _

theorem skip_between_cons :
    skip .between newline (c :: text) =
      if isLineEnd c then skip .between true text
      else if isSpace c then skip .between newline text
      else if c == '/' && text.head? == some '/' then skip .line newline text
      else if c == '/' && text.head? == some '*' then skip .opening newline text
      else if c == '<' && ['!', '-', '-'].isPrefixOf text then skip .line newline text
      else if newline && c == '-' && ['-', '>'].isPrefixOf text then skip .line newline text
      else ⟨0, newline, c :: text, false⟩ := by
  rw [skip, skipTrivia]
  split_ifs
  all_goals first | exact skip_eq _ _ _ _ _ | rfl

theorem skip_line_cons :
    skip .line newline (c :: text) =
      if isLineEnd c then skip .between true text else skip .line newline text := by
  rw [skip, skipTrivia]
  split_ifs
  all_goals exact skip_eq _ _ _ _ _

theorem skip_block_cons :
    skip .block newline (c :: text) =
      if c == '*' && text.head? == some '/' then skip .closing newline text
      else skip .block (newline || isLineEnd c) text := by
  rw [skip, skipTrivia]
  split_ifs
  all_goals exact skip_eq _ _ _ _ _

theorem skip_opening_cons :
    skip .opening newline (c :: text) = skip .block newline text := by
  rw [skip, skipTrivia]
  exact skip_eq _ _ _ _ _

theorem skip_closing_cons :
    skip .closing newline (c :: text) = skip .between newline text := by
  rw [skip, skipTrivia]
  exact skip_eq _ _ _ _ _

theorem isLineEnd_or_isSpace
    (h : isBlank c = true) :
    isLineEnd c = true ∨ isSpace c = true := by
  have hall : (blanks.all fun d => isLineEnd d || isSpace d) = true := by decide
  exact Bool.or_eq_true_iff.1 (List.all_eq_true.1 hall c (mem_blanks h))

/-- Blanks are skipped one by one outside of comments and in block comments. -/
theorem skip_blanks
    (hmode : mode = .between ∨ mode = .block)
    (hblanks : ∀ c ∈ blanks, isBlank c = true)
    (newline : Bool)
    (text : List Char) :
    skip mode newline (blanks ++ text) = skip mode (newline || blanks.any isLineEnd) text := by
  induction blanks generalizing newline with
  | nil =>
      simp
  | cons c blanks ih =>
      rw [List.forall_mem_cons] at hblanks
      have hstep : skip mode newline (c :: (blanks ++ text)) =
          skip mode (newline || isLineEnd c) (blanks ++ text) := by
        rcases hmode with rfl | rfl
        · rw [skip_between_cons]
          rcases isLineEnd_or_isSpace hblanks.1 with hend | hspace
          · rw [if_pos hend, hend, Bool.or_true]
          · cases hend : isLineEnd c <;> simp [hspace]
        · have hstar : ¬(c == '*' && (blanks ++ text).head? == some '/') = true := by
            rw [Bool.and_eq_true, beq_iff_eq]
            rintro ⟨rfl, -⟩
            cases hblanks.1
          rw [skip_block_cons, if_neg hstar]
      rw [List.cons_append, hstep, ih hblanks.2, List.any_cons, Bool.or_assoc]

/-- A comment of one line ends at the latest at a line feed. -/
theorem skip_line_blanks
    (hblanks : ∀ c ∈ blanks, isBlank c = true)
    (newline : Bool)
    (text : List Char) :
    skip .line newline (blanks ++ '\n' :: text) = skip .between true text := by
  have hbetween : ∀ {blanks : List Char}, (∀ c ∈ blanks, isBlank c = true) →
      skip .between true (blanks ++ '\n' :: text) = skip .between true text := by
    intro blanks hblanks
    rw [skip_blanks (Or.inl rfl) hblanks, Bool.true_or]
    exact skip_between_cons
  induction blanks with
  | nil =>
      exact skip_line_cons
  | cons c blanks ih =>
      rw [List.forall_mem_cons] at hblanks
      rw [List.cons_append, skip_line_cons]
      split_ifs
      · exact hbetween hblanks.2
      · exact ih hblanks.2

/-- Behind blanks with a line feed there is a line end, and a comment of one line is over. -/
theorem skip_break
    {gap : List Char}
    (hgap : IsBreak gap)
    (newline : Bool)
    (text : List Char) :
    skip .between newline (gap ++ text) = skip .between true text ∧
      skip .line newline (gap ++ text) = skip .between true text ∧
      skip .block newline (gap ++ text) = skip .block true text := by
  have hend : (newline || gap.any isLineEnd) = true := by
    rw [Bool.or_eq_true, List.any_eq_true]
    exact Or.inr ⟨'\n', hgap.lineFeed, rfl⟩
  refine ⟨?_, ?_, ?_⟩
  · rw [skip_blanks (Or.inl rfl) hgap.blank, hend]
  · obtain ⟨front, back, rfl⟩ := List.append_of_mem hgap.lineFeed
    have hblank := List.forall_mem_append.1 hgap.blank
    rw [List.append_assoc, List.cons_append, skip_line_blanks hblank.1,
      skip_blanks (Or.inl rfl) (List.forall_mem_cons.1 hblank.2).2, Bool.true_or]
  · rw [skip_blanks (Or.inr rfl) hgap.blank, hend]

/-- After what is skipped, one text ends where the other goes on with the ending, or both go on with
a token behind as many line ends. -/
def SkippedAlike (ending : List Char) (skipped skipped' : Skipped) : Prop :=
  skipped.rest = [] ∧ skipped' = skip .between true ending ∨
    skipped.rest ≠ [] ∧ skipped'.newline = skipped.newline ∧
      Relaid ending skipped.rest skipped'.rest

/-- A mark of a comment that has been begun is completed. -/
structure Completes (mode : TriviaMode) (text : List Char) : Prop where
  opening : mode = .opening → text.head? = some '*'
  closing : mode = .closing → text.head? = some '/'

/-- Blanks complete no mark. -/
theorem Completes.of_blank
    (h : Completes mode text)
    (hhead : ∀ c ∈ text.head?, isBlank c = true) :
    mode = .between ∨ mode = .line ∨ mode = .block := by
  cases mode with
  | between | line | block =>
      simp
  | opening =>
      cases hhead '*' (h.opening rfl)
  | closing =>
      cases hhead '/' (h.closing rfl)

theorem rest_skip_line_blanks
    (hblanks : ∀ c ∈ blanks, isBlank c = true)
    (newline : Bool) :
    (skip .line newline blanks).rest = [] := by
  induction blanks with
  | nil =>
      rfl
  | cons c blanks ih =>
      rw [List.forall_mem_cons] at hblanks
      rw [skip_line_cons]
      split_ifs
      · have hrest := skip_blanks (Or.inl rfl) hblanks.2 true []
        rw [List.append_nil] at hrest
        rw [hrest]
        rfl
      · exact ih hblanks.2

theorem skippedAlike_finish
    (hblanks : ∀ c ∈ blanks, isBlank c = true)
    (hmode : Completes mode blanks)
    (newline : Bool)
    (hclosed : (skip mode newline blanks).unclosed = false) :
    SkippedAlike ending (skip mode newline blanks) (skip mode newline ('\n' :: ending)) := by
  have hskip : ∀ {mode : TriviaMode}, mode = .between ∨ mode = .block →
      skip mode newline blanks = skip mode (newline || blanks.any isLineEnd) [] := by
    intro mode hmode
    have hall := skip_blanks hmode hblanks newline []
    rwa [List.append_nil] at hall
  rcases hmode.of_blank (fun c hc => hblanks c (List.mem_of_mem_head? hc)) with rfl | rfl | rfl
  · refine Or.inl ⟨?_, skip_between_cons⟩
    rw [hskip (Or.inl rfl)]
    rfl
  · exact Or.inl ⟨rest_skip_line_blanks hblanks newline, skip_line_cons⟩
  · rw [hskip (Or.inr rfl)] at hclosed
    cases hclosed

theorem skippedAlike_keep
    (h : Relaid ending text text')
    (ih : ∀ {mode : TriviaMode}, Completes mode text → ∀ newline,
      (skip mode newline text).unclosed = false →
        SkippedAlike ending (skip mode newline text) (skip mode newline text'))
    (newline : Bool)
    (hclosed : (skip mode newline (c :: text)).unclosed = false) :
    SkippedAlike ending (skip mode newline (c :: text)) (skip mode newline (c :: text')) := by
  have hhead : ∀ {d : Char}, isBlank d = false →
      (text'.head? == some d) = (text.head? == some d) := by
    intro d hd
    rw [Bool.eq_iff_iff, beq_iff_eq, beq_iff_eq, h.sameFront.head?_iff hd]
  have hnone : Completes .between text := ⟨nofun, nofun⟩
  have hline : Completes .line text := ⟨nofun, nofun⟩
  have hblock : Completes .block text := ⟨nofun, nofun⟩
  cases mode with
  | between =>
      have hcomment : ['!', '-', '-'].isPrefixOf text' = ['!', '-', '-'].isPrefixOf text :=
        (h.sameFront.isPrefixOf_eq (forall_visible rfl)).symm
      have hclose : ['-', '>'].isPrefixOf text' = ['-', '>'].isPrefixOf text :=
        (h.sameFront.isPrefixOf_eq (forall_visible rfl)).symm
      rw [skip_between_cons] at hclosed
      rw [skip_between_cons, skip_between_cons, hhead rfl, hhead rfl, hcomment, hclose]
      split_ifs at hclosed ⊢ with _ _ _ hopening
      · exact ih hnone true hclosed
      · exact ih hnone newline hclosed
      · exact ih hline newline hclosed
      · simp only [Bool.and_eq_true, beq_iff_eq] at hopening
        have hopened : Completes .opening text := ⟨fun _ => hopening.2, nofun⟩
        exact ih hopened newline hclosed
      · exact ih hline newline hclosed
      · exact ih hline newline hclosed
      · exact Or.inr ⟨nofun, rfl, h.keep c⟩
  | line =>
      rw [skip_line_cons] at hclosed
      rw [skip_line_cons, skip_line_cons]
      split_ifs at hclosed ⊢
      · exact ih hnone true hclosed
      · exact ih hline newline hclosed
  | opening =>
      rw [skip_opening_cons] at hclosed
      rw [skip_opening_cons, skip_opening_cons]
      exact ih hblock newline hclosed
  | block =>
      rw [skip_block_cons] at hclosed
      rw [skip_block_cons, skip_block_cons, hhead rfl]
      split_ifs at hclosed ⊢ with hclosing
      · simp only [Bool.and_eq_true, beq_iff_eq] at hclosing
        have hends : Completes .closing text := ⟨nofun, fun _ => hclosing.2⟩
        exact ih hends newline hclosed
      · exact ih hblock _ hclosed
  | closing =>
      rw [skip_closing_cons] at hclosed
      rw [skip_closing_cons, skip_closing_cons]
      exact ih hnone newline hclosed

theorem skippedAlike_of_relaid
    (h : Relaid ending text text')
    (hmode : Completes mode text)
    (newline : Bool)
    (hclosed : (skip mode newline text).unclosed = false) :
    SkippedAlike ending (skip mode newline text) (skip mode newline text') := by
  induction h generalizing mode newline with
  | finish hblanks =>
      exact skippedAlike_finish hblanks hmode newline hclosed
  | keep c h ih =>
      exact skippedAlike_keep h ih newline hclosed
  | @gap old new text text' hold hnew h ih =>
      have hhead := hold.isBlank_head text
      have hnone : Completes .between text := ⟨nofun, nofun⟩
      have hblock : Completes .block text := ⟨nofun, nofun⟩
      obtain ⟨hbetween, hline, hin⟩ := skip_break hold newline text
      obtain ⟨hbetween', hline', hin'⟩ := skip_break hnew newline text'
      rcases hmode.of_blank hhead with rfl | rfl | rfl
      · rw [hbetween] at hclosed
        rw [hbetween, hbetween']
        exact ih hnone true hclosed
      · rw [hline] at hclosed
        rw [hline, hline']
        exact ih hnone true hclosed
      · rw [hin] at hclosed
        rw [hin, hin']
        exact ih hblock true hclosed

/-- No comment is open in front of a token. -/
theorem unclosed_skipTrivia
    {count : Nat}
    (h : (skipTrivia mode count newline text).rest ≠ []) :
    (skipTrivia mode count newline text).unclosed = false := by
  fun_induction skipTrivia mode count newline text with
  | case1 =>
      exact absurd rfl h
  | case8 =>
      rfl
  | _ =>
      simp_all

end Skip

/-! ## Tokens without their places -/

/-- A token without its place in the text. -/
structure TokenValue where
  kind : TokenKind
  /-- The name of a word, the value of a string, else the characters of the token. -/
  text : String
  /-- The characters of the token. -/
  spelling : List Char
  /-- Whether a line ends between this token and the one before it. -/
  afterNewline : Bool
  escaped : Bool
  badEscape : Bool
  deriving Repr, DecidableEq

def Lexeme.value (lexeme : Lexeme) (afterNewline : Bool) : TokenValue :=
  ⟨lexeme.kind, lexeme.text, lexeme.spelling, afterNewline, lexeme.escaped, lexeme.badEscape⟩

/-- The lexemes that the grammar may find at the beginning of a text: the one that is there at first
sight, a regular expression at its slash, the piece of a template at the brace behind a substitution
and the longest operator at a right angle. -/
inductive FirstLexeme : List Char → Lexeme → Prop
  | sight (text : List Char) : FirstLexeme text (readLexeme text)
  | pattern
      {opening : List Char}
      (h : opening = ['/'] ∨ opening = ['/', '='])
      (rest : List Char) :
      FirstLexeme (opening ++ rest) (readRegularExpression opening rest)
  | template (rest : List Char) :
      FirstLexeme ('\x7d' :: rest) (readTemplate false '\x7d' rest)
  | operator
      {text : List Char} {mark : String}
      (h : leading? rightAngles text = some mark) :
      FirstLexeme text (.plain .punctuator mark.toList (text.drop mark.length))

/-- A text is read as a row of tokens, up to its end and without a fault.  It is given whether a
line ends before it. -/
inductive ReadsAs : Bool → List Char → List TokenValue → Prop
  | finish
      {newline : Bool} {text : List Char}
      (hrest : (skipTrivia .between 0 newline text).rest = [])
      (hclosed : (skipTrivia .between 0 newline text).unclosed = false) :
      ReadsAs newline text []
  | token
      {newline : Bool} {text : List Char} {lexeme : Lexeme} {values : List TokenValue}
      (hne : (skipTrivia .between 0 newline text).rest ≠ [])
      (hfirst : FirstLexeme (skipTrivia .between 0 newline text).rest lexeme)
      (hfaults : lexeme.faults = [])
      (hrest : ReadsAs false lexeme.rest values) :
      ReadsAs newline text (lexeme.value (skipTrivia .between 0 newline text).newline :: values)

section ReadsAs

variable {newline newline' : Bool} {ending text text' : List Char} {lexeme : Lexeme}
  {values footer : List TokenValue}

/-- Behind characters that can be seen, what a reader takes ends visibly and is taken again in front
of whatever begins like the text after it. -/
theorem Settled.exists_append
    {read : List Char → Lexeme} {front : List Char}
    (h : Settled read front text)
    (hfront : ∀ c ∈ front, isBlank c = false)
    (hfaults : (read text).faults = []) :
    front ++ text = (read text).spelling ++ (read text).rest ∧
      EndsVisibly (read text).spelling ∧
      ∀ other, SameFront (read text).rest other → ∃ more,
        (read text).spelling ++ other = front ++ more ∧
          read more = { read text with rest := other } := by
  obtain ⟨more, htext, hspelling, hvisible, -⟩ := h hfaults (read text).rest (.refl _)
  change (read text).spelling = front ++ more at hspelling
  refine ⟨?_, ?_, fun other hother => ?_⟩
  · rw [hspelling, List.append_assoc]
    exact congrArg (front ++ ·) htext
  · rw [hspelling]
    exact (EndsVisibly.of_forall hfront).append hvisible
  · obtain ⟨again, -, hagain, -, hread⟩ := h hfaults other hother
    change (read text).spelling = front ++ again at hagain
    exact ⟨again ++ other, by rw [hagain, List.append_assoc], hread⟩

/-- A lexeme is found again in front of whatever begins like the text after it. -/
theorem FirstLexeme.exists_append
    (h : FirstLexeme text lexeme)
    (hne : text ≠ [])
    (hfaults : lexeme.faults = []) :
    text = lexeme.spelling ++ lexeme.rest ∧ EndsVisibly lexeme.spelling ∧
      ∀ other, SameFront lexeme.rest other →
        FirstLexeme (lexeme.spelling ++ other) { lexeme with rest := other } := by
  cases h with
  | sight =>
      obtain ⟨htext, hvisible, hagain⟩ := (settled_readLexeme hne).exists_append nofun hfaults
      refine ⟨htext, hvisible, fun other hother => ?_⟩
      obtain ⟨more, hmore, hread⟩ := hagain other hother
      rw [hmore, ← hread]
      exact .sight more
  | pattern hopening rest =>
      have hfront : ∀ {opening : List Char}, opening = ['/'] ∨ opening = ['/', '='] →
          ∀ c ∈ opening, isBlank c = false := by
        rintro opening (rfl | rfl) <;> exact forall_visible rfl
      obtain ⟨htext, hvisible, hagain⟩ :=
        (settled_readRegularExpression _ rest).exists_append (hfront hopening) hfaults
      refine ⟨htext, hvisible, fun other hother => ?_⟩
      obtain ⟨more, hmore, hread⟩ := hagain other hother
      rw [hmore, ← hread]
      exact .pattern hopening more
  | template rest =>
      obtain ⟨htext, hvisible, hagain⟩ :=
        (settled_readTemplate false '\x7d' rest).exists_append (forall_visible rfl) hfaults
      refine ⟨htext, hvisible, fun other hother => ?_⟩
      obtain ⟨more, hmore, hread⟩ := hagain other hother
      rw [hmore, ← hread]
      exact .template more
  | @operator _ mark hmark =>
      have hangles : ∀ mark ∈ rightAngles, ∀ c ∈ mark.toList, isBlank c = false :=
        forall_marks_visible (by decide)
      have hvisible := hangles mark (List.mem_of_find?_eq_some hmark)
      have htext := toList_append_drop_of_leading? hmark
      obtain ⟨-, -, hagain⟩ := (settled_mark htext hvisible).exists_append nofun rfl
      refine ⟨htext.symm, .of_forall hvisible, fun other hother => ?_⟩
      obtain ⟨more, hmore, hread⟩ := hagain other hother
      have hleading := leading?_append hangles hmark hother
      rw [← hread]
      refine hmore ▸ FirstLexeme.operator ?_
      exact hmore ▸ hleading

/-- What is read depends on what is reached behind blanks and comments only. -/
theorem ReadsAs.congr
    (h : ReadsAs newline text values)
    (hskip : skip .between newline text = skip .between newline' text') :
    ReadsAs newline' text' values := by
  have hrest := congrArg Skipped.rest hskip
  have hnewline := congrArg Skipped.newline hskip
  have hunclosed := congrArg Skipped.unclosed hskip
  simp only [skip] at hrest hnewline hunclosed
  cases h with
  | finish hend hclosed =>
      exact .finish (hrest.symm.trans hend) (hunclosed.symm.trans hclosed)
  | token hne hfirst hfaults hmore =>
      rw [hrest] at hne hfirst
      rw [hnewline]
      exact .token hne hfirst hfaults hmore

/-- A text that is laid out anew in front of an ending is read as before, and then the ending. -/
theorem ReadsAs.of_relaid
    (h : ReadsAs newline text values)
    (hline : ∀ value ∈ values, '\n' ∉ value.spelling)
    (hrelaid : Relaid ending text text')
    (hending : ReadsAs true ending footer) :
    ReadsAs newline text' (values ++ footer) := by
  have hnone : ∀ text, Completes .between text := fun _ => ⟨nofun, nofun⟩
  induction h generalizing text' with
  | @finish newline text hrest hclosed =>
      obtain ⟨-, hskip⟩ | ⟨hne, -, -⟩ :=
        skippedAlike_of_relaid hrelaid (hnone text) newline hclosed
      · exact hending.congr hskip.symm
      · exact absurd hrest hne
  | @token newline text lexeme values hne hfirst hfaults _ ih =>
      obtain ⟨hend, -⟩ | ⟨-, hnewline, hrest⟩ :=
        skippedAlike_of_relaid hrelaid (hnone text) newline (unclosed_skipTrivia hne)
      · exact absurd hend hne
      · rw [List.forall_mem_cons] at hline
        obtain ⟨htext, hvisible, hagain⟩ := hfirst.exists_append hne hfaults
        -- the characters of the token stay where they are, and the text after it is laid out anew
        have hlaid := hrest
        simp only [skip] at hlaid hnewline
        rw [htext] at hlaid
        have hspelling : '\n' ∉ lexeme.spelling := hline.1
        have hne' := hlaid.ne_nil
        obtain ⟨other, htext', hother⟩ := hlaid.exists_eq_append hspelling hvisible
        have hfirst' := hagain other hother.sameFront
        rw [← htext'] at hfirst'
        have hmore := ih hline.2 hother
        have htoken := ReadsAs.token hne' hfirst' hfaults hmore
        rw [hnewline] at htoken
        exact htoken

/-- A text begins with a plain token behind blanks. -/
theorem ReadsAs.cons
    {kind : TokenKind} {name : String} {spelling whole rest : List Char}
    (hskip : skip .between newline text = ⟨0, newline', whole, false⟩)
    (hlexeme : readLexeme whole = ⟨kind, name, spelling, rest, false, false, []⟩)
    (hne : whole ≠ [])
    (h : ReadsAs false rest values) :
    ReadsAs newline text (⟨kind, name, spelling, newline', false, false⟩ :: values) := by
  have hrest := congrArg Skipped.rest hskip
  have hnewline := congrArg Skipped.newline hskip
  simp only [skip] at hrest hnewline
  have hfirst := FirstLexeme.sight (skipTrivia .between 0 newline text).rest
  rw [hrest, hlexeme] at hfirst
  rw [← hrest] at hne hfirst
  have htoken := ReadsAs.token hne hfirst rfl h
  rw [hnewline] at htoken
  exact htoken

end ReadsAs

/-! ## The function around a body -/

/-- A token that is its own text, on the line of the token before it. -/
def TokenValue.plain (kind : TokenKind) (text : String) : TokenValue :=
  ⟨kind, text, text.toList, false, false, false⟩

/-- The tokens of the function in front of its body, at the beginning of a text. -/
def wrapperOpening : List TokenValue :=
  [{ TokenValue.plain .punctuator "(" with afterNewline := true }, .plain .word "function",
    .plain .punctuator "(", .plain .punctuator ")", .plain .punctuator "\x7b"]

/-- The tokens of the function behind its body. -/
def wrapperClosing : List TokenValue :=
  [{ TokenValue.plain .punctuator "\x7d" with afterNewline := true }, .plain .punctuator ")",
    .plain .punctuator "(", .plain .punctuator ")"]

theorem readsAs_wrapperClosing : ReadsAs true "\x7d)()".toList wrapperClosing :=
  .cons rfl rfl nofun <| .cons rfl rfl nofun <| .cons rfl rfl nofun <| .cons rfl rfl nofun <|
    .finish rfl rfl

theorem readsAs_wrapperOpening
    {rest : List Char} {values : List TokenValue}
    (h : ReadsAs false ('\n' :: rest) values) :
    ReadsAs true ("(function () \x7b".toList ++ '\n' :: rest) (wrapperOpening ++ values) :=
  .cons rfl rfl nofun <| .cons rfl rfl nofun <| .cons rfl rfl nofun <| .cons rfl rfl nofun <|
    .cons rfl rfl nofun h

/-- In whatever way a body without line feeds in its tokens is read, the function around it is read
with the same tokens between those of the function. -/
theorem readsAs_wrap
    {body : String} {values : List TokenValue}
    (h : ReadsAs true body.toList values)
    (hline : ∀ value ∈ values, '\n' ∉ value.spelling) :
    ReadsAs true (wrap body).toList (wrapperOpening ++ (values ++ wrapperClosing)) := by
  have hskip : skip .between false ('\n' :: body.toList) = skip .between true body.toList :=
    skip_between_cons
  have hlaid := (h.congr hskip.symm).of_relaid hline (relaid_trimmed body.toList _)
    readsAs_wrapperClosing
  have htext : (wrap body).toList = "(function () \x7b".toList ++
      '\n' :: (indent (trimEnd body.toList) ++ '\n' :: "\x7d)()".toList) := by
    simp [wrap]
  rw [htext]
  exact readsAs_wrapperOpening hlaid

/-- A line that begins inside of a template is indented, too. -/
example : wrap "return \x60a\nb\x60;" = "(function () \x7b\n  return \x60a\n  b\x60;\n\x7d)()" := by
  rfl

end Script
end FeatureProbes
