import FeatureProbes.Proofs.WebIdl.Reading.Taking

/-!
# Rows of members and definitions

A member is a statement: a balanced row that goes up to its semicolon.  A definition is one, too; if
it has members, then these are the rows that its braces enclose.

Members and definitions have the line of the token at hand when their extended attributes have been
read.  That token is no string, because nothing that begins with a string is a member or a definition.
-/

namespace FeatureProbes
namespace WebIdl
namespace Parser

variable {α β : Type} {nested : Nested} {inside : List String}

/-! ## Members are statements -/

theorem takesStatement_end
    (found : α) :
    TakesStatement inside (do
      expectMark ";"
      return found) := by
  refine Takes.bind (takes_expectMark ";") fun _ one => takes_pure fun behind hat => ?_
  obtain ⟨-, last, rfl, hlast⟩ := hat
  exact ⟨[], last, rfl, balanced_nil, hlast⟩

theorem takesStatement_field
    (h : nested.TakesRows) :
    TakesStatement [";"] (field nested) := by
  refine (takesBalanced_eatWord "required").bind_statement fun _ => ?_
  refine (h.type.mono (by decide)).bind_statement fun type => ?_
  refine takesBalanced_identifier.bind_statement fun name => ?_
  refine (takesBalanced_eatMark (by decide)).bind_statement fun given => ?_
  exact TakesStatement.ite given
    (takesBalanced_defaultValue.bind_statement fun _ => takesStatement_end _) (takesStatement_end _)

theorem takesStatement_constant
    (h : nested.TakesRows) :
    TakesStatement [";"] (constant nested) := by
  refine (h.type.mono (by decide)).bind_statement fun type => ?_
  refine takesBalanced_identifier.bind_statement fun name => ?_
  refine (takesBalanced_expectMark (by decide)).bind_statement fun _ => ?_
  exact takesBalanced_defaultValue.bind_statement fun _ => takesStatement_end _

theorem takesStatement_constructorMember
    (h : nested.TakesRows) :
    TakesStatement [";"] (constructorMember nested) :=
  ((takesBalanced_arguments h).mono (by decide)).bind_statement fun _ => takesStatement_end _

theorem takesStatement_operation
    (h : nested.TakesRows) :
    TakesStatement [";"] (operation nested) := by
  have hrest : ∀ type name, TakesStatement [";"] (do
      let arguments ← arguments nested
      expectMark ";"
      return { Member.ofKind .operation name with
        type := some type, arguments := arguments }) := fun type name =>
    ((takesBalanced_arguments h).mono (by decide)).bind_statement fun _ => takesStatement_end _
  refine (h.type.mono (by decide)).bind_statement fun type => ?_
  refine takesBalanced_look.bind_statement fun named => ?_
  refine TakesStatement.ite named ?_ ((takesBalanced_pure _).bind_statement (hrest type))
  have hname : TakesBalanced [";"] (some <$> identifier) := by
    rw [← bind_pure_comp]
    exact takesBalanced_identifier.bind fun _ => takesBalanced_pure _
  exact hname.bind_statement (hrest type)

theorem takesStatement_attributeMember
    (h : nested.TakesRows) :
    TakesStatement [";"] (attributeMember nested) := by
  refine (h.type.mono (by decide)).bind_statement fun type => ?_
  exact takesBalanced_identifier.bind_statement fun name => takesStatement_end _

theorem takesStatement_attributeOrOperation
    (h : nested.TakesRows) :
    TakesStatement [";"] (attributeOrOperation nested) := by
  refine (takesBalanced_eatWords "readonly").bind_statement fun readonly => ?_
  refine (takesBalanced_eatWord "attribute").bind_statement fun isAttribute => ?_
  exact TakesStatement.ite isAttribute (takesStatement_attributeMember h).last
    (takesStatement_operation h).last

theorem takesStatement_collection
    (h : nested.TakesRows)
    (kind : MemberKind)
    (readonly : Bool) :
    TakesStatement [";"] (collection nested kind readonly) :=
  ((takesBalanced_typeParameters h.type).mono (by decide)).bind_statement
    fun _ => takesStatement_end _

theorem takesStatement_iterable
    (h : nested.TakesRows)
    (isAsync : Bool) :
    TakesStatement [";"] (iterable nested isAsync) := by
  refine ((takesBalanced_typeParameters h.type).mono (by decide)).bind_statement fun typeArgs => ?_
  refine takesBalanced_look.bind_statement fun opened => ?_
  have harguments : TakesBalanced [";"] (arguments nested) :=
    (takesBalanced_arguments h).mono (by decide)
  exact TakesStatement.ite opened (harguments.bind_statement fun _ => takesStatement_end _)
    ((takesBalanced_pure _).bind_statement fun _ => takesStatement_end _)

/-- A stringifier may consist of its keyword. -/
theorem takesStatement_stringifier
    (h : nested.TakesRows) :
    TakesStatement [";"] (stringifier nested) := by
  refine Takes.bind (takes_eatMark ";") fun ended one => Takes.ite (fun hended => ?_) fun hended => ?_
  · refine takes_pure fun behind hat => ?_
    rcases hat.2 with ⟨-, last, rfl, hlast⟩ | ⟨hfalse, -⟩
    · exact ⟨[], last, rfl, balanced_nil, hlast⟩
    · rw [hended] at hfalse
      cases hfalse
  · refine Takes.mono (takesStatement_attributeOrOperation h).last (fun _ _ => trivial) ?_
    rintro taken behind found ⟨-, ⟨htrue, -⟩ | ⟨-, rfl, -⟩⟩ htaken
    · rw [hended] at htrue
      cases htrue
    · exact htaken

theorem kind_of_special
    {token : Token}
    (h : (specialOfToken? token).isSome = true) :
    token.kind ≠ .mark := by
  by_cases hname : token.isName = true
  · exact kind_of_isName hname
  · rw [Bool.not_eq_true] at hname
    rw [specialOfToken?, Token.isWord, Token.isWord, Token.isWord, hname] at h
    cases h

theorem takesStatement_markedOperation
    (h : nested.TakesRows) :
    TakesStatement [";"] (markedOperation nested) := by
  have hspecials : TakesBalanced [";"] specials := by
    refine TakesBalanced.bind takesBalanced_look fun tokens => ?_
    refine TakesBalanced.bind (takesBalanced_dropWhile fun _ => kind_of_special) fun _ => ?_
    exact takesBalanced_pure _
  exact hspecials.bind_statement fun _ => (takesStatement_operation h).last

/-- A word is skipped that a reader has seen. -/
theorem takesBalanced_skip_word
    {guard : List Placed → Prop}
    (word : String)
    (h : ∀ placed, guard placed →
      ((placed.map Placed.token).head?.any fun token => token.isWord word) = true) :
    Takes guard skip fun taken _ _ => Balanced inside taken := by
  refine takesBalanced_skip fun placed hat => ?_
  have hfirst := h placed hat
  rw [any_head?_map, Option.any_eq_true] at hfirst
  obtain ⟨first, hmem, hword⟩ := hfirst
  exact ⟨first, hmem, kind_of_isWord hword⟩

theorem takesBalanced_inheritMark :
    TakesBalanced inside inheritMark := by
  refine Takes.look fun isInherit => Takes.look fun isReadonly => Takes.look fun isAttribute => ?_
  refine Takes.ite (fun hseen => takesBalanced_skip_word "inherit" fun placed hat => ?_)
    fun _ => Takes.at (takesBalanced_pure _)
  rw [Bool.and_eq_true] at hseen
  exact hat.1.1.2.trans hseen.1

theorem takesBalanced_readonlyMark :
    TakesBalanced inside readonlyMark := by
  refine Takes.look fun isReadonly => Takes.look fun isAttribute => ?_
  refine Takes.look fun isMaplike => Takes.look fun isSetlike => ?_
  refine Takes.ite (fun hseen => ?_) fun _ => Takes.at (takesBalanced_pure _)
  refine Takes.bind_balanced (takesBalanced_skip_word "readonly" fun placed hat => ?_)
    fun _ => takesBalanced_pure _
  rw [Bool.and_eq_true] at hseen
  exact hat.1.1.1.2.trans hseen.1

theorem takesBalanced_asyncMark :
    TakesBalanced inside asyncMark := by
  refine Takes.look fun isAsync => Takes.look fun isIterable => ?_
  refine Takes.ite (fun hseen => ?_) fun _ => Takes.at (takesBalanced_pure _)
  refine Takes.bind_balanced (takesBalanced_skip_word "async" fun placed hat => ?_)
    fun _ => takesBalanced_pure _
  rw [Bool.and_eq_true] at hseen
  exact hat.1.2.trans hseen.1

theorem takesStatement_plainMember
    (h : nested.TakesRows) :
    TakesStatement [";"] (plainMember nested) := by
  refine takesBalanced_inheritMark.bind_statement fun _ => ?_
  refine takesBalanced_readonlyMark.bind_statement fun readonly => ?_
  refine (takesBalanced_eatWord "maplike").bind_statement fun isMaplike => ?_
  refine TakesStatement.ite isMaplike (takesStatement_collection h _ _) ?_
  refine (takesBalanced_eatWord "setlike").bind_statement fun isSetlike => ?_
  refine TakesStatement.ite isSetlike (takesStatement_collection h _ _) ?_
  refine (takesBalanced_eatWord "attribute").bind_statement fun isAttribute => ?_
  refine TakesStatement.ite isAttribute (takesStatement_attributeMember h).last ?_
  refine takesBalanced_asyncMark.bind_statement fun isAsync => ?_
  refine (takesBalanced_eatWord "iterable").bind_statement fun isIterable => ?_
  exact TakesStatement.ite isIterable (takesStatement_iterable h _)
    (takesStatement_markedOperation h)

theorem takesStatement_member
    (h : nested.TakesRows) :
    TakesStatement [";"] (member nested) := by
  refine (takesBalanced_eatWord "const").bind_statement fun isConstant => ?_
  refine TakesStatement.ite isConstant (takesStatement_constant h) ?_
  refine Takes.look fun isConstructor => Takes.look fun opened => ?_
  refine Takes.ite (fun hseen => ?_) fun _ => Takes.at ?_
  · refine Takes.bind_statement (takesBalanced_skip_word "constructor" fun placed hat => ?_)
      fun _ => takesStatement_constructorMember h
    rw [Bool.and_eq_true] at hseen
    exact hat.1.2.trans hseen.1
  · refine (takesBalanced_eatWord "stringifier").bind_statement fun isStringifier => ?_
    refine TakesStatement.ite isStringifier (takesStatement_stringifier h) ?_
    refine (takesBalanced_eatWord "static").bind_statement fun isStatic => ?_
    exact TakesStatement.ite isStatic (takesStatement_attributeOrOperation h).last
      (takesStatement_plainMember h)

/-! ## Nothing begins with a string -/

def atString (placed : List Placed) : Prop :=
  ∃ first ∈ placed.head?, first.token.kind = .string

/-- A reader does not succeed where a string is at hand. -/
def Refuses (p : Parser α) : Prop :=
  Takes atString p fun _ _ _ => False

/-- A reader takes nothing where a string is at hand, and always gives the same value. -/
def Passes (p : Parser α) (value : α) : Prop :=
  Takes atString p fun taken _ found => taken = [] ∧ found = value

section Strings

variable {p : Parser α} {value : α} {after : α → Parser β} {result : β}

theorem Refuses.bind
    (h : Refuses p) :
    Refuses (p >>= after) :=
  Takes.bind h fun _ _ _ _ _ hat => hat.2.elim

theorem Passes.bind_refuses
    (h : Passes p value)
    (hafter : Refuses (after value)) :
    Refuses (p >>= after) := by
  refine Takes.bind h fun found one => ?_
  rintro placed other rest ⟨hat, rfl, rfl⟩ hrun
  exact hafter placed other rest hat hrun

theorem Passes.bind
    (h : Passes p value)
    (hafter : Passes (after value) result) :
    Passes (p >>= after) result := by
  refine Takes.bind h fun found one => ?_
  rintro placed other rest ⟨hat, rfl, rfl⟩ hrun
  exact hafter placed other rest hat hrun

theorem passes_pure
    (value : α) :
    Passes (pure value) value :=
  takes_pure fun _ _ => ⟨rfl, rfl⟩

/-- What is seen behind the string does not matter. -/
theorem refuses_look
    {view : List Token → α}
    (h : ∀ found, Refuses (after found)) :
    Refuses ((do return view (← get)) >>= after) :=
  Takes.look fun found => Takes.mono (h found) (fun _ hat => hat.1) fun _ _ _ _ htaken => htaken

theorem passes_look
    {view : List Token → α}
    (h : ∀ found, Passes (after found) result) :
    Passes ((do return view (← get)) >>= after) result :=
  Takes.look fun found => Takes.mono (h found) (fun _ hat => hat.1) fun _ _ _ _ htaken => htaken

theorem passes_head
    {q : Token → Bool}
    (hq : ∀ token, token.kind = .string → q token = false) :
    Passes (do return (← get).head?.any q) false := by
  refine takes_look.mono (fun _ hat => hat) ?_
  rintro taken behind found ⟨first, hfirst, hkind⟩ ⟨rfl, rfl⟩
  rw [List.nil_append] at hfirst
  refine ⟨rfl, ?_⟩
  rw [any_head?_map, hfirst, Option.any_some, hq _ hkind]

theorem isWord_of_string
    (word : String)
    (token : Token)
    (h : token.kind = .string) :
    token.isWord word = false := by
  rw [Token.isWord, Token.isName, h, Bool.false_and]

theorem passes_atWord
    (word : String) :
    Passes (atWord word) false :=
  passes_head (isWord_of_string word)

theorem passes_eatWord
    (word : String) :
    Passes (eatWord word) false :=
  (passes_atWord word).bind (passes_pure false)

theorem passes_eatMark
    (mark : String) :
    Passes (eatMark mark) false := by
  have hlook : Passes (atMark mark) false := passes_head fun token h => by
    rw [Token.isMark, h]
    rfl
  exact hlook.bind (passes_pure false)

theorem refuses_identifier :
    Refuses identifier := by
  rintro placed found rest ⟨first, hfirst, hkind⟩ hrun
  obtain ⟨behind, rfl⟩ := List.head?_eq_some_iff.1 hfirst
  have hname : first.token.isName = false := by
    rw [Token.isName, hkind]
  rw [List.map_cons, identifier, hname] at hrun
  cases hrun

end Strings

end Parser

structure Nested.RefusesStrings (nested : Nested) : Prop where
  type : Parser.Refuses nested.type
  attributes : Parser.Passes nested.attributes []

namespace Parser

variable {nested : Nested}

theorem passes_attributes
    (nested : Nested) :
    Passes (attributes nested) [] :=
  (passes_eatMark "[").bind (passes_pure [])

theorem refuses_type
    (h : nested.RefusesStrings) :
    Refuses (type nested) :=
  h.attributes.bind_refuses ((passes_eatMark "(").bind_refuses
    (Refuses.bind (Refuses.bind refuses_identifier)))

end Parser

theorem Nested.refusesStrings_level
    (depth : Nat) :
    (Nested.level depth).RefusesStrings := by
  induction depth with
  | zero =>
      exact ⟨Parser.takes_error fun _ => ⟨_, rfl⟩, Parser.takes_error fun _ => ⟨_, rfl⟩⟩
  | succ depth ih =>
      have hattributes := Parser.passes_attributes (Nested.level depth)
      exact ⟨Parser.refuses_type ⟨ih.type, hattributes⟩, hattributes⟩

namespace Parser

variable {α β : Type} {nested : Nested}

theorem refuses_field
    (h : nested.RefusesStrings) :
    Refuses (field nested) :=
  (passes_eatWord "required").bind_refuses h.type.bind

theorem passes_specials :
    Passes specials none := by
  rintro placed found rest ⟨first, hfirst, hkind⟩ hrun
  obtain ⟨behind, rfl⟩ := List.head?_eq_some_iff.1 hfirst
  have hspecial : ¬(specialOfToken? first.token).isSome = true := by
    rw [specialOfToken?, isWord_of_string _ _ hkind, isWord_of_string _ _ hkind,
      isWord_of_string _ _ hkind]
    exact Bool.false_ne_true
  have hnone : specials ((first :: behind).map Placed.token) =
      .ok (none, (first :: behind).map Placed.token) := by
    change Except.ok
      ((((first :: behind).map Placed.token).takeWhile
          fun token => (specialOfToken? token).isSome).getLast?.bind specialOfToken?,
        ((first :: behind).map Placed.token).dropWhile
          fun token => (specialOfToken? token).isSome) = _
    rw [List.map_cons,
      List.takeWhile_cons_of_neg (p := fun token => (specialOfToken? token).isSome) hspecial,
      List.dropWhile_cons_of_neg (p := fun token => (specialOfToken? token).isSome) hspecial]
    rfl
  rw [hnone] at hrun
  cases hrun
  exact ⟨[], _, rfl, rfl, rfl, rfl⟩

theorem refuses_member
    (h : nested.RefusesStrings) :
    Refuses (member nested) := by
  have hinherit : Passes inheritMark () :=
    (passes_atWord "inherit").bind (passes_look fun _ => passes_look fun _ => passes_pure ())
  have hreadonly : Passes readonlyMark false :=
    (passes_atWord "readonly").bind
      (passes_look fun _ => passes_look fun _ => passes_look fun _ => passes_pure false)
  have hasync : Passes asyncMark false :=
    (passes_atWord "async").bind (passes_look fun _ => passes_pure false)
  have hoperation : Refuses (markedOperation nested) :=
    passes_specials.bind_refuses (Refuses.bind h.type.bind)
  have hplain : Refuses (plainMember nested) := by
    refine hinherit.bind_refuses (hreadonly.bind_refuses ?_)
    refine (passes_eatWord "maplike").bind_refuses ((passes_eatWord "setlike").bind_refuses ?_)
    refine (passes_eatWord "attribute").bind_refuses (hasync.bind_refuses ?_)
    exact (passes_eatWord "iterable").bind_refuses hoperation
  refine (passes_eatWord "const").bind_refuses ((passes_atWord "constructor").bind_refuses ?_)
  refine refuses_look fun _ => (passes_eatWord "stringifier").bind_refuses ?_
  exact (passes_eatWord "static").bind_refuses hplain

theorem refuses_definitionBody :
    Refuses (definitionBody nested) := by
  have hextensible : Passes (extensible? nested) none :=
    (passes_eatWord "interface").bind ((passes_eatWord "namespace").bind
      ((passes_eatWord "dictionary").bind (passes_pure none)))
  have hname : Passes atName false := passes_head fun token h => by
    rw [Token.isName, h]
  refine (passes_eatWord "callback").bind_refuses ((passes_eatWord "partial").bind_refuses ?_)
  refine hextensible.bind_refuses ?_
  refine (passes_eatWord "enum").bind_refuses ((passes_eatWord "typedef").bind_refuses ?_)
  exact hname.bind_refuses (refuses_look fun _ => takes_unexpected _)

/-! ## Statements with extended attributes -/

/-- A row begins with extended attributes, and behind them with a token that is no string and has
this line. -/
inductive StartsOn (line : UInt32) : (row body : List Placed) → Prop
  | intro
      {front body : List Placed} {first : Placed}
      (hfront : IsAttributeRow front)
      (hbody : front = [] → ∀ first ∈ body.head?, first.token.isMark "[" = false)
      (hfirst : first ∈ body.head?)
      (hkind : first.token.kind ≠ .string)
      (hline : line = UInt32.ofNat first.token.line) :
      StartsOn line (front ++ body) body

/-- What is read behind extended attributes has the line of its first token. -/
theorem takes_attributed
    {item : Parser α} {make : List ExtendedAttribute → UInt32 → α → β}
    {shape : List Placed → α → Prop}
    (hattributes : TakesAttributes nested.attributes)
    (hitem : Takes anywhere item fun taken _ found => shape taken found)
    (hne : ∀ taken found, shape taken found → taken ≠ [])
    (hrefuses : Refuses item) :
    Takes anywhere
      (do
        let attributes ← nested.attributes
        let line ← here
        let found ← item
        return make attributes line found)
      fun taken _ value => ∃ attributes line found body, value = make attributes line found ∧
        StartsOn line taken body ∧ shape body found := by
  refine Takes.bind hattributes fun attributes front => Takes.look fun line => ?_
  -- The token that gives the line is the first one of the item.
  have hfirst : Takes
      (fun behind => (anywhere (front ++ behind) ∧ IsAttributeRow front ∧
        (front = [] → ∀ first ∈ behind.head?, first.token.isMark "[" = false)) ∧
        UInt32.ofNat (((behind.map Placed.token).head?.map Token.line).getD 0) = line)
      item fun body _ found => StartsOn line (front ++ body) body ∧ shape body found := by
    rintro placed found rest ⟨⟨-, hfront, hnone⟩, hline⟩ hrun
    obtain ⟨body, behind, rfl, hrest, hbody⟩ := hitem placed found rest trivial hrun
    obtain ⟨first, more, rfl⟩ := List.exists_cons_of_ne_nil (hne body found hbody)
    have hkind : first.token.kind ≠ .string := by
      intro hkind
      obtain ⟨_, _, _, _, himpossible⟩ :=
        hrefuses (first :: more ++ behind) found rest ⟨first, rfl, hkind⟩ hrun
      exact himpossible
    exact ⟨first :: more, behind, rfl, hrest, .intro hfront hnone rfl hkind hline.symm, hbody⟩
  exact hfirst.last fun body _ found hbody => ⟨attributes, line, found, body, rfl, hbody⟩

/-- A row that a member is read from. -/
def IsMemberRow (row : List Placed) (member : Member) : Prop :=
  ∃ body, StartsOn member.line row body ∧ IsStatement [";"] body

theorem takes_blockMember
    (h : nested.TakesRows)
    {item : Parser Member}
    (hitem : TakesStatement [";"] item)
    (hrefuses : Refuses item) :
    Takes anywhere (blockMember nested item) fun taken _ found => IsMemberRow taken found := by
  refine Takes.mono (takes_attributed h.attributes hitem ?_ hrefuses) (fun _ hat => hat) ?_
  · rintro taken found ⟨row, last, rfl, -, -⟩
    simp
  · rintro taken behind value - ⟨attributes, line, found, body, rfl, hstarts, hbody⟩
    exact ⟨body, hstarts, hbody⟩

/-! ## Definitions are statements -/

/-- What a definition with these members is read from, behind its extended attributes. -/
inductive IsDefinitionBody : List Placed → List Member → Prop
  | plain
      {row : List Placed}
      (hrow : IsStatement statementMarks row) :
      IsDefinitionBody row []
  /-- Braces without members, as of an enumeration. -/
  | values
      {front inner : List Placed} {opening closing last : Placed}
      (hfront : Balanced statementMarks front)
      (hopening : opening.token.isMark "\x7b" = true)
      (hinner : Balanced [";"] inner)
      (hclosing : closing.token.isMark "\x7d" = true)
      (hlast : last.token.isMark ";" = true) :
      IsDefinitionBody (front ++ opening :: (inner ++ [closing, last])) []
  | block
      {front inner : List Placed} {opening closing last : Placed} {members : List Member}
      (hfront : Balanced statementMarks front)
      (hopening : opening.token.isMark "\x7b" = true)
      (hinner : Rows IsMemberRow inner members)
      (hclosing : closing.token.isMark "\x7d" = true)
      (hlast : last.token.isMark ";" = true) :
      IsDefinitionBody (front ++ opening :: (inner ++ [closing, last])) members

theorem IsDefinitionBody.prepend
    {front row : List Placed} {members : List Member}
    (h : IsDefinitionBody row members)
    (hfront : Balanced statementMarks front) :
    IsDefinitionBody (front ++ row) members := by
  cases h with
  | plain hrow =>
      obtain ⟨row, last, rfl, hrow, hlast⟩ := hrow
      exact .plain ⟨front ++ row, last, by rw [List.append_assoc], hfront.append hrow, hlast⟩
  | values hbetween hopening hinner hclosing hlast =>
      rw [← List.append_assoc]
      exact .values (hfront.append hbetween) hopening hinner hclosing hlast
  | block hbetween hopening hinner hclosing hlast =>
      rw [← List.append_assoc]
      exact .block (hfront.append hbetween) hopening hinner hclosing hlast

theorem IsDefinitionBody.ne_nil
    {row : List Placed} {members : List Member}
    (h : IsDefinitionBody row members) :
    row ≠ [] := by
  cases h with
  | plain hrow =>
      obtain ⟨row, last, rfl, -, -⟩ := hrow
      simp
  | _ =>
      simp

/-- A reader takes a definition without its extended attributes. -/
def TakesDefinition (p : Parser Definition) : Prop :=
  Takes anywhere p fun taken _ found => IsDefinitionBody taken found.members

theorem TakesBalanced.bind_definition
    {p : Parser α} {after : α → Parser Definition}
    (h : TakesBalanced statementMarks p)
    (hafter : ∀ found, TakesDefinition (after found)) :
    TakesDefinition (p >>= after) :=
  Takes.bind h fun found _ => Takes.mono (hafter found) (fun _ _ => trivial)
    fun _ _ _ hat htaken => htaken.prepend hat.2

theorem TakesDefinition.ite
    {p other : Parser Definition}
    (condition : Bool)
    (h : TakesDefinition p)
    (hother : TakesDefinition other) :
    TakesDefinition (if condition then p else other) :=
  Takes.ite (fun _ => h) (fun _ => hother)

theorem takesDefinition_end
    {found : Definition}
    (h : found.members = []) :
    TakesDefinition (do
      expectMark ";"
      return found) := by
  refine Takes.bind (takes_expectMark ";") fun _ one => takes_pure fun behind hat => ?_
  obtain ⟨-, last, rfl, hlast⟩ := hat
  rw [h]
  exact .plain ⟨[], last, rfl, balanced_nil, hlast⟩

theorem takes_blockEnds :
    Takes anywhere blockEnds fun taken _ found => taken = [] ∧ (found = true → True) := by
  refine Takes.look fun closed => ?_
  refine Takes.ite (fun _ => takes_pure fun _ _ => ⟨rfl, fun _ => trivial⟩) fun _ => ?_
  refine Takes.look fun tokens => Takes.ite (fun _ => ?_) fun _ => ?_
  · exact takes_error fun _ => ⟨_, rfl⟩
  · exact takes_pure fun _ _ => ⟨rfl, fun _ => trivial⟩

theorem takes_block
    (h : nested.TakesRows)
    {item : Parser Member}
    (hitem : TakesStatement [";"] item)
    (hrefuses : Refuses item) :
    Takes anywhere (block nested item) fun taken _ members => IsDefinitionBody taken members := by
  refine Takes.bind (takes_expectMark "\x7b") fun _ one => ?_
  refine Takes.bind (takes_itemsUntil takes_blockEnds (takes_blockMember h hitem hrefuses)).at
    fun members two => ?_
  refine Takes.bind (takes_expectMark "\x7d") fun _ three => ?_
  refine Takes.bind (takes_expectMark ";") fun _ four => takes_pure fun behind hat => ?_
  obtain ⟨⟨⟨⟨-, opening, rfl, hopening⟩, hinner, -⟩, closing, rfl, hclosing⟩, last, rfl, hlast⟩ := hat
  simpa using IsDefinitionBody.block balanced_nil hopening hinner hclosing hlast

theorem takesDefinition_plainBody
    (h : nested.TakesRows)
    (hstrings : nested.RefusesStrings)
    (kind : DefinitionKind) :
    TakesDefinition (plainBody nested kind) := by
  refine takesBalanced_identifier.bind_definition fun name => ?_
  exact (takes_block h (takesStatement_member h) (refuses_member hstrings)).last
    fun _ _ _ htaken => htaken

theorem takesDefinition_inheritingBody
    (h : nested.TakesRows)
    {item : Parser Member}
    (hitem : TakesStatement [";"] item)
    (hrefuses : Refuses item)
    (kind : DefinitionKind) :
    TakesDefinition (inheritingBody nested kind item) := by
  have hinheritance : TakesBalanced statementMarks inheritance :=
    (takesBalanced_eatMark (by decide)).bind fun given =>
      TakesBalanced.ite given (takesBalanced_identifier.bind fun _ => takesBalanced_pure _)
        (takesBalanced_pure _)
  refine takesBalanced_identifier.bind_definition fun name => ?_
  refine hinheritance.bind_definition fun inheritance => ?_
  exact (takes_block h hitem hrefuses).last fun _ _ _ htaken => htaken

theorem takesDefinition_callbackFunction
    (h : nested.TakesRows) :
    TakesDefinition (callbackFunction nested) := by
  refine takesBalanced_identifier.bind_definition fun name => ?_
  refine (takesBalanced_expectMark (by decide)).bind_definition fun _ => ?_
  refine h.type.bind_definition fun type => ?_
  exact (takesBalanced_arguments h).bind_definition fun arguments => takesDefinition_end rfl

theorem takesDefinition_typedefinition
    (h : nested.TakesRows) :
    TakesDefinition (typedefinition nested) := by
  refine h.type.bind_definition fun type => ?_
  exact takesBalanced_identifier.bind_definition fun name => takesDefinition_end rfl

/-- The word between the names of an inclusion has been seen before. -/
theorem takes_inclusion :
    Takes
      (fun placed =>
        ((placed.map Placed.token).tail.head?.any fun token => token.isWord "includes") = true)
      inclusion fun taken _ found => IsDefinitionBody taken found.members := by
  refine Takes.bind takes_identifier fun target one => ?_
  have hskip : Takes
      (fun behind => ((one ++ behind).map Placed.token).tail.head?.any
          (fun token => token.isWord "includes") = true ∧
        ∃ first, one = [first] ∧ first.token.kind ≠ .mark)
      skip fun taken _ _ => Balanced statementMarks taken := by
    refine takesBalanced_skip_word "includes" ?_
    rintro placed ⟨hseen, first, rfl, -⟩
    exact hseen
  have hrest : TakesDefinition (do
      let mixin ← identifier
      expectMark ";"
      return { Definition.ofKind .includes target with included := some mixin }) :=
    takesBalanced_identifier.bind_definition fun mixin => takesDefinition_end rfl
  refine Takes.bind hskip fun _ two => Takes.mono hrest (fun _ _ => trivial) ?_
  rintro taken behind found ⟨⟨-, first, rfl, hfirst⟩, htwo⟩ htaken
  exact (htaken.prepend htwo).prepend (balanced_of_kind hfirst)

theorem takes_enumValues :
    Takes anywhere enumValues fun taken _ _ => IsDefinitionBody taken [] := by
  refine Takes.bind (takes_expectMark "\x7b") fun _ one => ?_
  have hvalue : TakesBalanced [";"] stringValue := takesBalanced_stringValue
  refine Takes.bind (takes_commaList "\x7d" (by decide) hvalue).at fun values two => ?_
  refine Takes.bind (takes_expectMark ";") fun _ three => takes_pure fun behind hat => ?_
  obtain ⟨⟨⟨-, opening, rfl, hopening⟩, inner, closing, rfl, hinner, hclosing⟩, last, rfl, hlast⟩ :=
    hat
  simpa using IsDefinitionBody.values balanced_nil hopening hinner hclosing hlast

theorem takesDefinition_inextensible
    (h : nested.TakesRows) :
    TakesDefinition (inextensible nested) := by
  refine (takesBalanced_eatWord "enum").bind_definition fun isEnumeration => ?_
  refine TakesDefinition.ite isEnumeration ?_ ?_
  · refine takesBalanced_identifier.bind_definition fun name => ?_
    exact takes_enumValues.last fun _ _ _ htaken => htaken
  · refine (takesBalanced_eatWord "typedef").bind_definition fun isTypedef => ?_
    refine TakesDefinition.ite isTypedef (takesDefinition_typedefinition h) ?_
    refine Takes.look fun named => Takes.look fun includes => ?_
    refine Takes.ite (fun hseen => ?_) fun _ => takes_unexpected _
    rw [Bool.and_eq_true] at hseen
    exact takes_inclusion.mono (fun _ hat => hat.2.trans hseen.2) fun _ _ _ _ htaken => htaken

/-- A reader takes a definition, or nothing if there is none. -/
def TakesExtension (p : Parser (Option Definition)) : Prop :=
  Takes anywhere p fun taken _ found =>
    match found with
    | some definition => IsDefinitionBody taken definition.members
    | none => taken = []

/-- A reader takes a definition that there must be. -/
def TakesSome (p : Parser (Option Definition)) : Prop :=
  Takes anywhere p fun taken _ found =>
    ∃ definition, found = some definition ∧ IsDefinitionBody taken definition.members

theorem TakesDefinition.some
    {p : Parser Definition}
    (h : TakesDefinition p) :
    TakesSome (some <$> p) := by
  rw [← bind_pure_comp]
  exact Takes.last h fun _ _ found htaken => ⟨found, rfl, htaken⟩

/-- Behind a keyword there must be a definition. -/
theorem TakesSome.eat
    {word : String} {p other : Parser (Option Definition)}
    (h : TakesSome p)
    (hother : TakesExtension other) :
    TakesExtension (do if ← eatWord word then p else other) := by
  refine Takes.bind (takes_eatWord word) fun found one => ?_
  cases found with
  | true =>
      refine Takes.mono h (fun _ _ => trivial) ?_
      rintro taken behind value ⟨-, hone⟩ ⟨definition, rfl, htaken⟩
      rcases hone with ⟨-, first, rfl, hfirst⟩ | ⟨hfalse, -⟩
      · exact htaken.prepend (balanced_of_kind (kind_of_isWord hfirst))
      · cases hfalse
  | false =>
      refine Takes.mono hother (fun _ _ => trivial) ?_
      rintro taken behind value ⟨-, ⟨htrue, -⟩ | ⟨-, rfl, -⟩⟩ htaken
      · cases htrue
      · exact htaken

theorem takesExtension_extensible?
    (h : nested.TakesRows)
    (hstrings : nested.RefusesStrings) :
    TakesExtension (extensible? nested) := by
  have hinterface : TakesSome (do
      if ← eatWord "mixin" then some <$> plainBody nested .mixin
      else some <$> inheritingBody nested .interface (member nested)) := by
    have hmixin : TakesBalanced statementMarks (eatWord "mixin") := takesBalanced_eatWord "mixin"
    have hbody : ∀ isMixin : Bool, TakesSome (if isMixin then some <$> plainBody nested .mixin
        else some <$> inheritingBody nested .interface (member nested)) := fun _ =>
      Takes.ite (fun _ => (takesDefinition_plainBody h hstrings _).some) fun _ =>
        (takesDefinition_inheritingBody h (takesStatement_member h) (refuses_member hstrings) _).some
    refine Takes.bind hmixin fun isMixin one => Takes.mono (hbody isMixin) (fun _ _ => trivial) ?_
    rintro taken behind value ⟨-, hone⟩ ⟨definition, rfl, htaken⟩
    exact ⟨definition, rfl, htaken.prepend hone⟩
  have hdictionary : TakesDefinition (inheritingBody nested .dictionary (field nested)) :=
    takesDefinition_inheritingBody h (takesStatement_field h) (refuses_field hstrings) _
  refine hinterface.eat ((takesDefinition_plainBody h hstrings _).some.eat ?_)
  exact hdictionary.some.eat (takes_pure fun _ _ => rfl)

theorem takesDefinition_definitionBody
    (h : nested.TakesRows)
    (hstrings : nested.RefusesStrings) :
    TakesDefinition (definitionBody nested) := by
  refine (takesBalanced_eatWord "callback").bind_definition fun isCallback => ?_
  refine TakesDefinition.ite isCallback ?_ ?_
  · refine (takesBalanced_eatWord "interface").bind_definition fun isInterface => ?_
    exact TakesDefinition.ite isInterface (takesDefinition_plainBody h hstrings _)
      (takesDefinition_callbackFunction h)
  · refine (takesBalanced_eatWord "partial").bind_definition fun isPartial => ?_
    refine Takes.bind (takesExtension_extensible? h hstrings) fun found row => ?_
    cases found with
    | some definition =>
        refine takes_pure fun behind hat => ?_
        rw [List.append_nil]
        exact hat.2
    | none =>
        refine Takes.ite (fun _ => takes_unexpected _) fun _ => ?_
        refine Takes.mono (takesDefinition_inextensible h) (fun _ _ => trivial) ?_
        rintro taken behind definition ⟨-, rfl⟩ htaken
        exact htaken

/-- A row that a definition is read from. -/
def IsDefinitionRow (row : List Placed) (definition : Definition) : Prop :=
  ∃ body, StartsOn definition.line row body ∧ IsDefinitionBody body definition.members

theorem takes_definition
    (h : nested.TakesRows)
    (hstrings : nested.RefusesStrings) :
    Takes anywhere (definition nested) fun taken _ found => IsDefinitionRow taken found := by
  refine Takes.mono (takes_attributed h.attributes (takesDefinition_definitionBody h hstrings)
    (fun _ _ htaken => htaken.ne_nil) refuses_definitionBody) (fun _ hat => hat) ?_
  rintro taken behind value - ⟨attributes, line, found, body, rfl, hstarts, hbody⟩
  exact ⟨body, hstarts, hbody⟩

/-- Definitions are read from rows one behind the other, to the end. -/
theorem takes_definitions
    (h : nested.TakesRows)
    (hstrings : nested.RefusesStrings) :
    Takes anywhere (definitions nested) fun taken behind found =>
      Rows IsDefinitionRow taken found ∧ behind = [] := by
  refine takes_itemsUntil ?_ (takes_definition h hstrings)
  refine takes_look.mono (fun _ hat => hat) ?_
  rintro taken behind found - ⟨rfl, rfl⟩
  exact ⟨rfl, fun hnone => by simpa using hnone⟩

end Parser
end WebIdl
end FeatureProbes
