import FeatureProbes.Proofs.WebIdl.Reading.Attributes

/-!
# Reading members

A member is read back from its words.  Every shape begins with a word of its own or with a type,
and no type begins with a word that the reader looks for, so no shape is taken for another one.
-/

namespace FeatureProbes
namespace WebIdl

namespace Parser

variable {bound : Nat} {nested : Nested} {next : List Word}

/-! ## The parts of members -/

/-- The value that constants are given. -/
theorem reads_defaultValue_zero :
    Reads bound defaultValue [.integer "0"] () next := by
  refine Reads.peek (reads_eatMark_of_not rfl) ?_
  refine Reads.peek (reads_eatMark_of_not rfl) ?_
  refine Reads.peek reads_atName ?_
  refine Reads.peek (reads_atKind_of true rfl) ?_
  refine Reads.peek (reads_atKind _) ?_
  refine Reads.peek (reads_atKind _) ?_
  exact reads_skip (by decide)

theorem reads_field
    {name : String} {type : IdlType}
    (hnested : nested.ReadsTypes bound)
    (hname : IsName name)
    (htype : type.Expressible) :
    Reads bound (field nested) (type.words ++ [.name name, .mark ";"])
      { Member.ofKind .field (some name) with type := some type } next := by
  obtain ⟨word, more, hwords, hopens⟩ := htype.exists_words
  refine Reads.peek (reads_eatWord_of_not ?_) ?_
  · rw [hwords]
    exact hopens.isWord_eq (by decide)
  · refine Reads.bind (hnested.type type htype (.name name) hname.endsType _) ?_
    refine (reads_identifier hname.isScannable).step ?_
    refine Reads.peek (reads_eatMark_of_not rfl) ?_
    exact (reads_expectMark (by decide)).step (reads_pure _)

theorem reads_constant
    {name : String} {type : IdlType}
    (hnested : nested.ReadsTypes bound)
    (hname : IsName name)
    (htype : type.Expressible) :
    Reads bound (constant nested)
      (type.words ++ [.name name, .mark "=", .integer "0", .mark ";"])
      { Member.ofKind .const (some name) with type := some type } next := by
  refine Reads.bind (hnested.type type htype (.name name) hname.endsType _) ?_
  refine (reads_identifier hname.isScannable).step ?_
  refine (reads_expectMark (by decide)).step ?_
  refine Reads.step reads_defaultValue_zero ?_
  exact (reads_expectMark (by decide)).step (reads_pure _)

theorem reads_constructorMember
    {arguments : List Argument}
    (hnested : nested.ReadsTypes bound)
    (h : ∀ argument ∈ arguments, argument.Expressible) :
    Reads bound (constructorMember nested) (argumentsWords arguments ++ [.mark ";"])
      { Member.ofKind .constructor none with arguments := arguments } next :=
  (reads_arguments hnested h).bind ((reads_expectMark (by decide)).step (reads_pure _))

theorem reads_operation
    {name : Option String} {type : IdlType} {arguments : List Argument}
    (hnested : nested.ReadsTypes bound)
    (hname : ∀ text, name = some text → IsName text)
    (htype : type.Expressible)
    (h : ∀ argument ∈ arguments, argument.Expressible) :
    Reads bound (operation nested)
      (type.words ++ ((name.map Word.name).toList ++ (argumentsWords arguments ++ [.mark ";"])))
      { Member.ofKind .operation name with type := some type, arguments := arguments } next := by
  cases name with
  | none =>
      have hend : (Word.mark "(").EndsType := Word.endsType_mark (by decide)
      rw [Option.map_none, Option.toList_none, List.nil_append]
      refine Reads.bind (hnested.type type htype (.mark "(") hend _) ?_
      refine Reads.peek reads_atName ?_
      refine Reads.peek (reads_pure none) ?_
      refine Reads.bind (reads_arguments hnested h) ?_
      exact (reads_expectMark (by decide)).step (reads_pure _)
  | some text =>
      have htext := hname text rfl
      rw [Option.map_some, Option.toList_some, List.singleton_append]
      refine Reads.bind (hnested.type type htype (.name text) htext.endsType _) ?_
      refine Reads.peek reads_atName ?_
      refine Reads.step ((reads_identifier htext.isScannable).map some) ?_
      refine Reads.bind (reads_arguments hnested h) ?_
      exact (reads_expectMark (by decide)).step (reads_pure _)

theorem reads_attributeMember
    {name : String} {type : IdlType}
    (hnested : nested.ReadsTypes bound)
    (hname : IsName name)
    (htype : type.Expressible) :
    Reads bound (attributeMember nested) (type.words ++ [.name name, .mark ";"])
      { Member.ofKind .attr (some name) with type := some type } next := by
  refine Reads.bind (hnested.type type htype (.name name) hname.endsType _) ?_
  refine (reads_identifier hname.isScannable).step ?_
  exact (reads_expectMark (by decide)).step (reads_pure _)

/-- Tokens that say words of one sort stand in front of others that do not. -/
theorem span_of_words
    {p : Token → Bool} {q : Word → Bool} {words : List Word} {tokens rest : List Token}
    (htokens : tokens.map Token.word = words)
    (hrest : rest.map Token.word = next)
    (h : ∀ token : Token, p token = q token.word)
    (hwords : ∀ word ∈ words, q word = true)
    (hnext : next.head?.any q = false) :
    (tokens ++ rest).takeWhile p = tokens ∧ (tokens ++ rest).dropWhile p = rest := by
  have hall : ∀ token ∈ tokens, p token = true := by
    intro token htoken
    rw [h]
    exact hwords _ (htokens ▸ List.mem_map_of_mem htoken)
  have hstop : rest.takeWhile p = [] ∧ rest.dropWhile p = rest := by
    rw [← any_head?_word hrest h] at hnext
    cases rest with
    | nil =>
        exact ⟨rfl, rfl⟩
    | cons token rest =>
        have hneg : ¬p token = true := by simpa using hnext
        exact ⟨List.takeWhile_cons_of_neg hneg, List.dropWhile_cons_of_neg hneg⟩
  rw [List.takeWhile_append_of_pos hall, List.dropWhile_append_of_pos hall, hstop.1, hstop.2,
    List.append_nil]
  exact ⟨rfl, rfl⟩

/-- Any number of words are taken; one or none is written. -/
theorem reads_eatWords
    {given : Bool} {word : String}
    (hword : (Word.name word).IsScannable)
    (h : (next.head?.any fun other => other.isWord word) = false) :
    Reads bound (eatWords word) (optionalWord given word) given next := by
  have hwords : ∀ other ∈ optionalWord given word, other = .name word := by
    cases given <;> simp [optionalWord]
  have hdrop : Reads bound
      (modify fun tokens : List Token => tokens.dropWhile fun token => token.isWord word)
      (optionalWord given word) () next := by
    refine ⟨fun other hother => hwords other hother ▸ hword, ?_⟩
    intro tokens rest htokens hrest hbound
    have hspan := span_of_words htokens hrest (p := fun token => token.isWord word)
      (fun _ => rfl) (fun other hother => by simp [hwords other hother]) h
    refine ⟨(), ?_, rfl⟩
    change Except.ok ((), (tokens ++ rest).dropWhile _) = _
    rw [hspan.2]
  refine Reads.peek (reads_atWord_of given ?_) (hdrop.last _)
  cases given with
  | true =>
      simp [optionalWord]
  | false =>
      exact h

/-- The mark of an operation that a word stands for. -/
def specialOfWord? (word : Word) : Option Special :=
  if word.isWord "getter" then some .getter
  else if word.isWord "setter" then some .setter
  else if word.isWord "deleter" then some .deleter
  else none

theorem specialOfToken?_eq
    (token : Token) :
    specialOfToken? token = specialOfWord? token.word :=
  rfl

/-- A mark in front of an operation, where no further mark follows. -/
theorem reads_specials
    {special : Option Special}
    (hspecial : special ∈ [none, some .getter, some .setter, some .deleter])
    (h : (next.head?.any fun word => (specialOfWord? word).isSome) = false) :
    Reads bound specials (special.map fun special => Word.name special.keyword).toList special
      next := by
  have hwords : ∀ special ∈ [none, some .getter, some .setter, some Special.deleter],
      ∀ word ∈ (special.map fun special => Word.name special.keyword).toList,
        word.IsScannable ∧ (specialOfWord? word).isSome = true := by
    decide
  have hlast : ∀ special ∈ [none, some .getter, some .setter, some Special.deleter],
      (special.map fun special => Word.name special.keyword).toList.getLast?.bind
        specialOfWord? = special := by
    decide
  refine ⟨fun word hword => (hwords special hspecial word hword).1, ?_⟩
  intro tokens rest htokens hrest hbound
  have hspan := span_of_words htokens hrest (p := fun token => (specialOfToken? token).isSome)
    (fun token => congrArg Option.isSome (specialOfToken?_eq token))
    (fun word hword => (hwords special hspecial word hword).2) h
  have hfound : tokens.getLast?.bind specialOfToken? = special := by
    rw [← hlast special hspecial, ← htokens, List.getLast?_map, Option.bind_map]
    rfl
  refine ⟨special, ?_, rfl⟩
  change Except.ok (((tokens ++ rest).takeWhile _).getLast?.bind specialOfToken?,
    (tokens ++ rest).dropWhile _) = _
  rw [hspan.1, hspan.2, hfound]

/-! ## The words in front of members -/

/-- None of some words is at hand. -/
def FreeOf (texts : List String) (words : List Word) : Prop :=
  ∀ text ∈ texts, (words.head?.any fun word => word.isWord text) = false

theorem freeOf_cons
    {texts : List String} {word : Word} {more : List Word}
    (h : ∀ text ∈ texts, word.isWord text = false) :
    FreeOf texts (word :: more) :=
  h

theorem FreeOf.subset
    {texts fewer : List String} {words : List Word}
    (h : FreeOf texts words)
    (hfewer : fewer ⊆ texts) :
    FreeOf fewer words :=
  fun text htext => h text (hfewer htext)

/-- The words that tell members of other sorts from plain ones. -/
def memberWords : List String :=
  ["const", "constructor", "stringifier", "static"]

/-- The words that tell plain members from operations. -/
def plainWords : List String :=
  ["inherit", "readonly", "maplike", "setlike", "attribute", "async", "iterable"]

theorem reads_inheritMark
    (h : FreeOf ["inherit"] next) :
    Reads bound inheritMark [] () next := by
  refine Reads.peek (reads_atWord_of false (h _ (by decide))) ?_
  refine Reads.peek (reads_nextIsWord "readonly") ?_
  exact Reads.peek (reads_nextIsWord "attribute") (reads_pure ())

theorem reads_readonlyMark_of_not
    (h : FreeOf ["readonly"] next) :
    Reads bound readonlyMark [] false next := by
  refine Reads.peek (reads_atWord_of false (h _ (by decide))) ?_
  refine Reads.peek (reads_nextIsWord "attribute") ?_
  refine Reads.peek (reads_nextIsWord "maplike") ?_
  exact Reads.peek (reads_nextIsWord "setlike") (reads_pure false)

/-- The mark of a read-only member, or none, in front of such a member. -/
theorem reads_readonlyMark
    {readonly : Bool} {text : String}
    (htext : text ∈ ["attribute", "maplike", "setlike"]) :
    Reads bound readonlyMark (optionalWord readonly "readonly") readonly (.name text :: next) := by
  cases readonly with
  | false =>
      refine reads_readonlyMark_of_not (freeOf_cons ?_)
      simp only [List.mem_cons, List.not_mem_nil, or_false] at htext
      rcases htext with rfl | rfl | rfl <;> decide
  | true =>
      refine Reads.peek (reads_atWord_of true (by simp [optionalWord])) ?_
      refine Reads.peek (reads_nextIsWord "attribute") ?_
      refine Reads.peek (reads_nextIsWord "maplike") ?_
      refine Reads.peek (reads_nextIsWord "setlike") ?_
      rw [if_pos (by simpa [optionalWord, or_assoc] using htext)]
      exact (reads_skip (by decide)).step (reads_pure true)

theorem reads_asyncMark_of_not
    (h : FreeOf ["async"] next) :
    Reads bound asyncMark [] false next := by
  refine Reads.peek (reads_atWord_of false (h _ (by decide))) ?_
  exact Reads.peek (reads_nextIsWord "iterable") (reads_pure false)

theorem reads_asyncMark
    {isAsync : Bool} :
    Reads bound asyncMark (optionalWord isAsync "async") isAsync (.name "iterable" :: next) := by
  cases isAsync with
  | false =>
      exact reads_asyncMark_of_not (freeOf_cons (by decide))
  | true =>
      refine Reads.peek (reads_atWord_of true (by simp [optionalWord])) ?_
      refine Reads.peek (reads_nextIsWord "iterable") ?_
      rw [if_pos (by simp [optionalWord])]
      exact (reads_skip (by decide)).step (reads_pure true)

/-! ## Sorts of members -/

section Sorts

variable {words : List Word} {m : Member}

/-- The words of an operation or an attribute, which may be read-only. -/
theorem reads_attributeOrOperation_attribute
    {name : String} {type : IdlType} {readonly : Bool}
    (hnested : nested.ReadsTypes bound)
    (hname : IsName name)
    (htype : type.Expressible) :
    Reads bound (attributeOrOperation nested)
      (optionalWord readonly "readonly" ++
        .name "attribute" :: (type.words ++ [.name name, .mark ";"]))
      { Member.ofKind .attr (some name) with readonly := readonly, type := some type } next := by
  refine Reads.bind (reads_eatWords (by decide) (by simp)) ?_
  refine (reads_eatWord (by decide)).step ?_
  exact (reads_attributeMember hnested hname htype).last _

theorem reads_attributeOrOperation_operation
    {name : Option String} {type : IdlType} {readonly : Bool} {arguments : List Argument}
    (hnested : nested.ReadsTypes bound)
    (hname : ∀ text, name = some text → IsName text)
    (htype : type.Expressible)
    (h : ∀ argument ∈ arguments, argument.Expressible) :
    Reads bound (attributeOrOperation nested)
      (optionalWord readonly "readonly" ++
        (type.words ++ ((name.map Word.name).toList ++ (argumentsWords arguments ++ [.mark ";"]))))
      { Member.ofKind .operation name with
        readonly := readonly, type := some type, arguments := arguments } next := by
  obtain ⟨word, more, hwords, hopens⟩ := htype.exists_words
  refine Reads.bind (reads_eatWords (by decide) ?_) ?_
  · rw [hwords]
    exact hopens.isWord_eq (by decide)
  · refine Reads.peek (reads_eatWord_of_not ?_) ?_
    · rw [hwords]
      exact hopens.isWord_eq (by decide)
    · exact (reads_operation hnested hname htype h).last _

/-- A member behind the word that makes it static or a stringifier. -/
theorem reads_member_of_special
    {special : Special}
    (hspecial : special ∈ [.static, .stringifier])
    (hmark : ((words ++ next).head?.any fun word => word.isMark ";") = false)
    (h : Reads bound (attributeOrOperation nested) words m next) :
    Reads bound (member nested) (.name special.keyword :: words)
      { m with special := some special } next := by
  simp only [List.mem_cons, List.not_mem_nil, or_false] at hspecial
  rcases hspecial with rfl | rfl
  · refine Reads.peek (reads_eatWord_of_not (by simp [Special.keyword])) ?_
    refine Reads.peek (reads_atWord_of false (by simp [Special.keyword])) ?_
    refine Reads.peek (reads_nextIsMark "(") ?_
    refine Reads.peek (reads_eatWord_of_not (by simp [Special.keyword])) ?_
    exact (reads_eatWord (by decide)).step (h.last _)
  · refine Reads.peek (reads_eatWord_of_not (by simp [Special.keyword])) ?_
    refine Reads.peek (reads_atWord_of false (by simp [Special.keyword])) ?_
    refine Reads.peek (reads_nextIsMark "(") ?_
    refine (reads_eatWord (by decide)).step ?_
    exact Reads.peek (reads_eatMark_of_not hmark) (h.last _)

theorem reads_member_stringifier :
    Reads bound (member nested) [.name "stringifier", .mark ";"]
      { Member.ofKind .operation none with special := some .stringifier } next := by
  refine Reads.peek (reads_eatWord_of_not (by simp)) ?_
  refine Reads.peek (reads_atWord_of false (by simp)) ?_
  refine Reads.peek (reads_nextIsMark "(") ?_
  refine (reads_eatWord (by decide)).step ?_
  refine (reads_eatMark (by decide)).step ?_
  exact Reads.peek (reads_pure _) (reads_pure _)

theorem reads_member_constructor
    {arguments : List Argument}
    (hnested : nested.ReadsTypes bound)
    (h : ∀ argument ∈ arguments, argument.Expressible) :
    Reads bound (member nested)
      (.name "constructor" :: (argumentsWords arguments ++ [.mark ";"]))
      { Member.ofKind .constructor none with arguments := arguments } next := by
  refine Reads.peek (reads_eatWord_of_not (by simp)) ?_
  refine Reads.peek (reads_atWord_of true (by simp)) ?_
  refine Reads.peek (reads_nextIsMark_of true (by simp [argumentsWords])) ?_
  exact (reads_skip (by decide)).step (reads_constructorMember hnested h)

theorem reads_member_of_plain
    (hfree : FreeOf memberWords (words ++ next))
    (h : Reads bound (plainMember nested) words m next) :
    Reads bound (member nested) words m next := by
  refine Reads.peek (reads_eatWord_of_not (hfree _ (by decide))) ?_
  refine Reads.peek (reads_atWord_of false (hfree _ (by decide))) ?_
  refine Reads.peek (reads_nextIsMark "(") ?_
  refine Reads.peek (reads_eatWord_of_not (hfree _ (by decide))) ?_
  exact Reads.peek (reads_eatWord_of_not (hfree _ (by decide))) h

theorem reads_plainMember_attribute
    {name : String} {type : IdlType} {readonly : Bool}
    (hnested : nested.ReadsTypes bound)
    (hname : IsName name)
    (htype : type.Expressible) :
    Reads bound (plainMember nested)
      (optionalWord readonly "readonly" ++
        .name "attribute" :: (type.words ++ [.name name, .mark ";"]))
      { Member.ofKind .attr (some name) with readonly := readonly, type := some type } next := by
  refine Reads.peek (reads_inheritMark ?_) ?_
  · cases readonly <;> exact freeOf_cons (by decide)
  · refine Reads.bind (reads_readonlyMark (by decide)) ?_
    refine Reads.peek (reads_eatWord_of_not (by simp)) ?_
    refine Reads.peek (reads_eatWord_of_not (by simp)) ?_
    refine (reads_eatWord (by decide)).step ?_
    exact (reads_attributeMember hnested hname htype).last _

theorem reads_collection
    {kind : MemberKind} {readonly : Bool} {typeArgs : List IdlType}
    (hnested : nested.ReadsTypes bound)
    (hsome : typeArgs ≠ [])
    (h : ∀ type ∈ typeArgs, type.Expressible) :
    Reads bound (collection nested kind readonly)
      (.mark "<" :: closedRowWords ">" IdlType.words typeArgs ++ [.mark ";"])
      { Member.ofKind kind none with readonly := readonly, typeArgs := typeArgs } next := by
  refine Reads.bind (reads_typeParameters hsome ?_) ?_
  · exact fun type htype word hword more => hnested.type type (h type htype) word hword more
  · exact (reads_expectMark (by decide)).step (reads_pure _)

theorem reads_iterable
    {isAsync : Bool} {typeArgs : List IdlType} {arguments : List Argument}
    (hnested : nested.ReadsTypes bound)
    (hsome : typeArgs ≠ [])
    (h : ∀ type ∈ typeArgs, type.Expressible)
    (harguments : ∀ argument ∈ arguments, argument.Expressible) :
    Reads bound (iterable nested isAsync)
      (.mark "<" :: closedRowWords ">" IdlType.words typeArgs ++
        ((if arguments.isEmpty then [] else argumentsWords arguments) ++ [.mark ";"]))
      { Member.ofKind .iterable none with
        isAsync := isAsync, typeArgs := typeArgs, arguments := arguments } next := by
  refine Reads.bind (reads_typeParameters hsome ?_) ?_
  · exact fun type htype word hword more => hnested.type type (h type htype) word hword more
  · refine reads_arguments_if hnested harguments (by simp) ?_
    exact (reads_expectMark (by decide)).step (reads_pure _)

theorem reads_plainMember_collection
    {kind : MemberKind} {readonly : Bool} {typeArgs : List IdlType}
    (hnested : nested.ReadsTypes bound)
    (hkind : kind ∈ [.maplike, .setlike])
    (hsome : typeArgs ≠ [])
    (h : ∀ type ∈ typeArgs, type.Expressible) :
    Reads bound (plainMember nested)
      { Member.ofKind kind none with readonly := readonly, typeArgs := typeArgs }.bodyWords
      { Member.ofKind kind none with readonly := readonly, typeArgs := typeArgs } next := by
  simp only [List.mem_cons, List.not_mem_nil, or_false] at hkind
  rcases hkind with rfl | rfl
  · refine Reads.peek (reads_inheritMark ?_) ?_
    · cases readonly <;> exact freeOf_cons (by decide)
    · refine Reads.bind (reads_readonlyMark (by decide)) ?_
      exact (reads_eatWord (by decide)).step (reads_collection hnested hsome h)
  · refine Reads.peek (reads_inheritMark ?_) ?_
    · cases readonly <;> exact freeOf_cons (by decide)
    · refine Reads.bind (reads_readonlyMark (by decide)) ?_
      refine Reads.peek (reads_eatWord_of_not (by simp)) ?_
      exact (reads_eatWord (by decide)).step (reads_collection hnested hsome h)

theorem reads_plainMember_iterable
    {isAsync : Bool} {typeArgs : List IdlType} {arguments : List Argument}
    (hnested : nested.ReadsTypes bound)
    (hsome : typeArgs ≠ [])
    (h : ∀ type ∈ typeArgs, type.Expressible)
    (harguments : ∀ argument ∈ arguments, argument.Expressible) :
    Reads bound (plainMember nested)
      { Member.ofKind .iterable none with
        isAsync := isAsync, typeArgs := typeArgs, arguments := arguments }.bodyWords
      { Member.ofKind .iterable none with
        isAsync := isAsync, typeArgs := typeArgs, arguments := arguments } next := by
  have hfree : FreeOf ["inherit", "readonly", "maplike", "setlike", "attribute"]
      (optionalWord isAsync "async" ++ .name "iterable" ::
        (.mark "<" :: closedRowWords ">" IdlType.words typeArgs ++
          ((if arguments.isEmpty then [] else argumentsWords arguments) ++ [.mark ";"])) ++
        next) := by
    cases isAsync <;> exact freeOf_cons (by decide)
  refine Reads.peek (reads_inheritMark (hfree.subset (by decide))) ?_
  refine Reads.peek (reads_readonlyMark_of_not (hfree.subset (by decide))) ?_
  refine Reads.peek (reads_eatWord_of_not (hfree _ (by decide))) ?_
  refine Reads.peek (reads_eatWord_of_not (hfree _ (by decide))) ?_
  refine Reads.peek (reads_eatWord_of_not (hfree _ (by decide))) ?_
  refine Reads.bind reads_asyncMark ?_
  exact (reads_eatWord (by decide)).step (reads_iterable hnested hsome h harguments)

/-- An operation begins with its mark or with its type, and so with none of the words that tell
members of other sorts. -/
theorem freeOf_operation
    {type : IdlType} {special : Option Special} {more : List Word}
    (htype : type.Expressible)
    (hspecial : special ∈ [none, some .getter, some .setter, some .deleter]) :
    FreeOf (memberWords ++ plainWords)
      ((special.map fun special => Word.name special.keyword).toList ++ (type.words ++ more)) := by
  have hkeywords : ∀ text ∈ memberWords ++ plainWords, text ∈ keywords := by
    decide
  have hmarks : ∀ special ∈ [Special.getter, .setter, .deleter],
      ∀ text ∈ memberWords ++ plainWords, (Word.name special.keyword).isWord text = false := by
    decide
  cases special with
  | none =>
      obtain ⟨word, rest, hwords, hopens⟩ := htype.exists_words
      rw [hwords]
      exact freeOf_cons fun text htext => hopens.isWord_eq (hkeywords text htext)
  | some special =>
      refine freeOf_cons (hmarks special ?_)
      simpa using hspecial

theorem reads_plainMember_operation
    {name : Option String} {type : IdlType} {special : Option Special} {arguments : List Argument}
    (hnested : nested.ReadsTypes bound)
    (hname : ∀ text, name = some text → IsName text)
    (htype : type.Expressible)
    (hspecial : special ∈ [none, some .getter, some .setter, some .deleter])
    (h : ∀ argument ∈ arguments, argument.Expressible) :
    Reads bound (plainMember nested)
      ((special.map fun special => Word.name special.keyword).toList ++
        (type.words ++ ((name.map Word.name).toList ++ (argumentsWords arguments ++ [.mark ";"]))))
      { Member.ofKind .operation name with
        special := special, type := some type, arguments := arguments } next := by
  have hfree : FreeOf plainWords ((special.map fun special => Word.name special.keyword).toList ++
      (type.words ++ ((name.map Word.name).toList ++ (argumentsWords arguments ++ [.mark ";"]))) ++
        next) := by
    rw [List.append_assoc, List.append_assoc]
    exact (freeOf_operation htype hspecial).subset (by decide)
  refine Reads.peek (reads_inheritMark (hfree.subset (by decide))) ?_
  refine Reads.peek (reads_readonlyMark_of_not (hfree.subset (by decide))) ?_
  refine Reads.peek (reads_eatWord_of_not (hfree _ (by decide))) ?_
  refine Reads.peek (reads_eatWord_of_not (hfree _ (by decide))) ?_
  refine Reads.peek (reads_eatWord_of_not (hfree _ (by decide))) ?_
  refine Reads.peek (reads_asyncMark_of_not (hfree.subset (by decide))) ?_
  refine Reads.peek (reads_eatWord_of_not (hfree _ (by decide))) ?_
  refine Reads.bind (reads_specials hspecial ?_) ?_
  · obtain ⟨word, more, hwords, hopens⟩ := htype.exists_words
    rw [hwords]
    have hword : specialOfWord? word = none := by
      rw [specialOfWord?, hopens.isWord_eq (by decide), hopens.isWord_eq (by decide),
        hopens.isWord_eq (by decide)]
      rfl
    exact congrArg Option.isSome hword
  · exact (reads_operation hnested hname htype h).last _

end Sorts

theorem reads_member_attribute
    {name : String} {type : IdlType} {special : Option Special} {readonly : Bool}
    (hnested : nested.ReadsTypes bound)
    (hname : IsName name)
    (htype : type.Expressible)
    (hspecial : special ∈ [none, some .static, some .stringifier]) :
    Reads bound (member nested)
      ((special.map fun special => Word.name special.keyword).toList ++
        (optionalWord readonly "readonly" ++
          .name "attribute" :: (type.words ++ [.name name, .mark ";"])))
      { Member.ofKind .attr (some name) with
        special := special, readonly := readonly, type := some type } next := by
  cases special with
  | none =>
      refine reads_member_of_plain ?_ (reads_plainMember_attribute hnested hname htype)
      cases readonly <;> exact freeOf_cons (by decide)
  | some special =>
      refine reads_member_of_special (by simpa using hspecial) ?_
        (reads_attributeOrOperation_attribute hnested hname htype)
      cases readonly <;> rfl

/-- Operations have a mark of their own or one that attributes have, too. -/
theorem mem_of_special
    (special : Option Special) :
    special ∈ [none, some .getter, some .setter, some .deleter] ∨
      ∃ found : Special, found ∈ [.static, .stringifier] ∧ special = some found := by
  cases special with
  | none =>
      exact Or.inl (by decide)
  | some special =>
      cases special with
      | getter =>
          exact Or.inl (by decide)
      | setter =>
          exact Or.inl (by decide)
      | deleter =>
          exact Or.inl (by decide)
      | static =>
          exact Or.inr ⟨_, by decide, rfl⟩
      | stringifier =>
          exact Or.inr ⟨_, by decide, rfl⟩

theorem reads_member_operation
    {name : Option String} {type : IdlType} {special : Option Special} {readonly : Bool}
    {arguments : List Argument}
    (hnested : nested.ReadsTypes bound)
    (hname : ∀ text, name = some text → IsName text)
    (htype : type.Expressible)
    (hspecial : readonly = true → special ∈ [some .static, some .stringifier])
    (h : ∀ argument ∈ arguments, argument.Expressible) :
    Reads bound (member nested)
      ((special.map fun special => Word.name special.keyword).toList ++
        (optionalWord readonly "readonly" ++ (type.words ++
          ((name.map Word.name).toList ++ (argumentsWords arguments ++ [.mark ";"])))))
      { Member.ofKind .operation name with
        special := special, readonly := readonly, type := some type, arguments := arguments }
      next := by
  -- Only behind the marks that attributes have, too, is a word for read-only members looked for.
  rcases mem_of_special special with hplain | ⟨found, hfound, rfl⟩
  · obtain rfl : readonly = false := by
      rw [Bool.eq_false_iff]
      intro hreadonly
      have hother := hspecial hreadonly
      simp only [List.mem_cons, List.not_mem_nil, or_false] at hother
      rcases hother with rfl | rfl <;> exact absurd hplain (by decide)
    refine reads_member_of_plain ?_ (reads_plainMember_operation hnested hname htype hplain h)
    rw [List.append_assoc, List.append_assoc, List.append_assoc]
    exact (freeOf_operation htype hplain).subset (List.subset_append_left _ _)
  · refine reads_member_of_special hfound ?_
      (reads_attributeOrOperation_operation hnested hname htype h)
    obtain ⟨word, more, hwords, hopens⟩ := htype.exists_words
    rw [hwords]
    cases readonly with
    | false =>
        exact hopens.isMark_eq (by decide)
    | true =>
        rfl

/-- No shape of a member is taken for another one. -/
theorem reads_member
    {m : Member}
    (hnested : nested.ReadsTypes bound)
    (h : m.IsShape) :
    Reads bound (member nested) m.bodyWords m next := by
  cases h with
  | attr hname htype hspecial =>
      exact reads_member_attribute hnested hname htype hspecial
  | operation hname htype hspecial harguments =>
      exact reads_member_operation hnested hname htype hspecial harguments
  | stringifier =>
      exact reads_member_stringifier
  | constructor harguments =>
      exact reads_member_constructor hnested harguments
  | constant hname htype =>
      exact (reads_eatWord (by decide)).step (reads_constant hnested hname htype)
  | @iterable isAsync typeArgs arguments hsome htypes harguments =>
      refine reads_member_of_plain ?_ (reads_plainMember_iterable hnested hsome htypes harguments)
      cases isAsync <;> exact freeOf_cons (by decide)
  | @collection kind readonly typeArgs hkind hsome htypes =>
      refine reads_member_of_plain ?_ (reads_plainMember_collection hnested hkind hsome htypes)
      simp only [List.mem_cons, List.not_mem_nil, or_false] at hkind
      rcases hkind with rfl | rfl <;> cases readonly <;> exact freeOf_cons (by decide)

end Parser
end WebIdl
end FeatureProbes
