import FeatureProbes.Json.Printer
import FeatureProbes.Json.Reader
import FeatureProbes.Proofs.Text.Affix
import FeatureProbes.Proofs.Text.Quoted
import Mathlib.Data.List.Basic

/-!
# Reading what was printed

A value without numbers other than small whole ones is read back from its text if the reader may go
as deep as the value is nested, and is not read at all otherwise.  Whatever follows the text of a
value in a document is left, so the argument goes from a value to the array or object that it is in.
-/

namespace FeatureProbes
namespace Json

/-- A value whose numbers are whole and below 2 ^ 32. -/
inductive Value.IsPrintable : Value → Prop where
  | null : IsPrintable .null
  | bool (value : Bool) : IsPrintable (.bool value)
  | integer {n : Int} (hnonneg : 0 ≤ n) (hlt : n < 4294967296) : IsPrintable (.integer n)
  | string (text : String) : IsPrintable (.string text)
  | array {items : List Value} (h : ∀ item ∈ items, IsPrintable item) : IsPrintable (.array items)
  | object {members : List (String × Value)} (h : ∀ member ∈ members, IsPrintable member.2) :
      IsPrintable (.object members)

/-! ## Strings -/

section Strings

variable {c : Char} {text rest : List Char}

/-- A character is read back from the way it is written. -/
theorem readString_escapeChar
    (c : Char)
    (rest : List Char) :
    readString none (Text.escapeChar c ++ rest) =
      (readString none rest).map fun found => (c :: found.1, found.2) := by
  have hplain : ∀ c : Char, c ≠ '\\' → c ≠ '"' → 32 ≤ c.toNat →
      readString none (c :: rest) =
        (readString none rest).map fun found => (c :: found.1, found.2) := by
    intro c hslash hquote hcontrol
    cases hmore : readString none rest <;>
      simp [readString, hslash, hquote, Nat.not_lt.2 hcontrol, hmore]
  have hescaped : ∀ d c : Char, d ≠ 'u' → escapedChar? d = some c →
      readString none ('\\' :: d :: rest) =
        (readString none rest).map fun found => (c :: found.1, found.2) := by
    intro d c hd hc
    cases hmore : readString none rest <;>
      simp [readString, hd, hc, hmore]
  have hcontrol : c.toNat < 32 → readString none ('\\' :: 'u' :: '0' :: '0' ::
      Text.hexDigit (c.toNat / 16) :: Text.hexDigit (c.toNat % 16) :: rest) =
        (readString none rest).map fun found => (c :: found.1, found.2) := by
    intro hlt
    have hunit : hexUnit? '0' '0' (Text.hexDigit (c.toNat / 16)) (Text.hexDigit (c.toNat % 16)) =
        some c.toNat := by
      have hzero : Text.hexValue? '0' = some 0 := rfl
      have hhigh := Text.hexValue?_hexDigit (n := c.toNat / 16) (by omega)
      have hlow := Text.hexValue?_hexDigit (n := c.toNat % 16) (by omega)
      simp only [hexUnit?, hzero, hhigh, hlow, Option.bind_eq_bind, Option.bind_some]
      congr 1
      omega
    have hhigh : ¬(0xD800 ≤ c.toNat ∧ c.toNat ≤ 0xDBFF) := by omega
    have hlow : ¬(0xDC00 ≤ c.toNat ∧ c.toNat ≤ 0xDFFF) := by omega
    cases hmore : readString none rest <;>
      simp [readString, hunit, hhigh, hlow, hmore]
  rw [Text.escapeChar]
  iterate 7
    split
    · rename_i hc
      subst hc
      exact hescaped _ _ (by decide) rfl
  split
  · rename_i hlt
    exact hcontrol hlt
  · rename_i hquote hslash _ _ _ _ _ hlt
    exact hplain c hslash hquote (Nat.not_lt.1 hlt)

theorem readString_quoted
    (text rest : List Char) :
    readString none (text.flatMap Text.escapeChar ++ '"' :: rest) = some (text, rest) := by
  induction text with
  | nil =>
      simp [readString]
  | cons c text ih =>
      rw [List.flatMap_cons, List.append_assoc, readString_escapeChar, ih]
      rfl

end Strings

/-! ## Numbers -/

/-- The text behind a value does not go on with a number. -/
def Follows (rest : List Char) : Prop :=
  ∀ c ∈ rest.head?, c = ',' ∨ c = ']' ∨ c = '\x7d'

theorem digitsValue_toDigits
    (n : Nat) :
    digitsValue (Nat.toDigits 10 n) = n := by
  have h : Nat.ofDigitChars 10 (Nat.toDigits 10 n) 0 = n := Nat.ofDigitChars_ten_toDigits
  rwa [Nat.ofDigitChars_eq_foldl] at h

theorem exists_toDigits_cons
    (n : Nat) :
    ∃ c more, Nat.toDigits 10 n = c :: more ∧ c.isDigit = true := by
  obtain ⟨c, more, hsplit⟩ := List.exists_cons_of_ne_nil (Nat.toDigits_ne_nil (b := 10) (n := n))
  have hmem : c ∈ Nat.toDigits 10 n := by
    rw [hsplit]
    exact List.mem_cons_self
  exact ⟨c, more, hsplit, Nat.isDigit_of_mem_toDigits (by decide) (by decide) hmem⟩

/-- Only the number zero begins with a zero. -/
theorem head?_toDigits_ne
    {n : Nat}
    (h : 0 < n) :
    (Nat.toDigits 10 n).head? ≠ some '0' := by
  induction n using Nat.strongRecOn with
  | ind n ih =>
      rw [Nat.toDigits_eq_if (by decide)]
      split
      · rw [List.head?_cons]
        intro heq
        have hzero := Nat.digitChar_eq_zero.1 (Option.some.inj heq)
        omega
      · have hhead := ih (n / 10) (by omega) (by omega)
        rwa [List.head?_append_of_ne_nil _ Nat.toDigits_ne_nil]

theorem readWhole_toDigits
    {rest : List Char}
    (n : Nat)
    (hrest : Follows rest) :
    readWhole (Nat.toDigits 10 n ++ rest) = some (Nat.toDigits 10 n, rest) := by
  have hstop : ∀ c ∈ rest.head?, c.isDigit = false := by
    intro c hc
    rcases hrest c hc with rfl | rfl | rfl <;> rfl
  have hdigits : ∀ c ∈ Nat.toDigits 10 n, c.isDigit = true := fun c hc =>
    Nat.isDigit_of_mem_toDigits (by decide) (by decide) hc
  obtain ⟨htake, hdrop⟩ := Text.span_of_stop rest hdigits hstop
  rcases Nat.eq_zero_or_pos n with rfl | hpos
  · have hany : rest.head?.any Char.isDigit = false := by
      cases hc : rest.head? with
      | none =>
          rfl
      | some c =>
          exact hstop c hc
    simp [readWhole, hany]
  · have hhead := head?_toDigits_ne hpos
    obtain ⟨c, more, hsplit, hc⟩ := exists_toDigits_cons n
    rw [hsplit] at htake hdrop hhead ⊢
    rw [List.cons_append] at htake hdrop ⊢
    rw [readWhole, htake, hdrop, if_pos hc]
    exact fun hzero => hhead (congrArg some hzero)

theorem digitsValue_dropWhile_zero
    (digits : List Char) :
    digitsValue (digits.dropWhile (· == '0')) = digitsValue digits := by
  induction digits with
  | nil =>
      rfl
  | cons c digits ih =>
      rw [List.dropWhile_cons]
      split
      · rename_i hc
        rw [ih, eq_of_beq hc]
        rfl
      · rfl

/-- A small number is not beyond the numbers of double precision. -/
theorem isHuge_toDigits
    {n : Nat}
    (hlt : n < 4294967296) :
    isHuge (Nat.toDigits 10 n) [] [] = false := by
  have hlimit : 4294967296 ≤ Nat.pow 2 1024 - Nat.pow 2 970 := by
    decide +kernel
  have hvalue : digitsValue ((Nat.toDigits 10 n).dropWhile (· == '0')) < 4294967296 := by
    rw [digitsValue_dropWhile_zero, digitsValue_toDigits]
    exact hlt
  rw [isHuge, List.append_nil]
  -- The limit must not be evaluated.
  generalize Nat.pow 2 1024 - Nat.pow 2 970 = limit at hlimit ⊢
  have hnot : ¬digitsValue ((Nat.toDigits 10 n).dropWhile (· == '0')) * 1 ≥ limit * 1 := by
    omega
  split
  · rfl
  · exact decide_eq_false hnot

theorem readNumber_toDigits
    {n : Nat} {rest : List Char}
    (hlt : n < 4294967296)
    (hrest : Follows rest) :
    readNumber (Nat.toDigits 10 n ++ rest) = some (.integer n, rest) := by
  have hsign : (Nat.toDigits 10 n).head? ≠ some '-' := by
    intro hhead
    have hdigit := Nat.isDigit_of_mem_toDigits (by decide) (by decide)
      (List.mem_of_mem_head? hhead)
    revert hdigit
    decide
  have hfraction : readFraction rest = some ([], rest) := by
    cases rest with
    | nil =>
        rfl
    | cons c rest =>
        rcases hrest c rfl with rfl | rfl | rfl <;> rfl
  have hexponent : readExponent rest = some ([], rest) := by
    cases rest with
    | nil =>
        rfl
    | cons c rest =>
        rcases hrest c rfl with rfl | rfl | rfl <;> rfl
  simp [readNumber, hsign, readWhole_toDigits n hrest, hfraction, hexponent, isHuge_toDigits hlt,
    digitsValue_toDigits]

/-! ## Values -/

/-- The reader gets a value back from its text, or nothing if the value is nested too deep. -/
def ReadsBack (value : Value) : Prop :=
  ∀ (rounds depth : Nat) (rest : List Char), value.render.length < rounds → Follows rest →
    readValue rounds depth (value.render ++ rest) =
      if value.depth ≤ depth then some (value, rest) else none

section Values

variable {value : Value} {items : List Value} {members : List (String × Value)}
  {rounds depth : Nat} {rest : List Char}

theorem render_integer
    {n : Int}
    (h : 0 ≤ n) :
    (Value.integer n).render = Nat.toDigits 10 n.natAbs :=
  if_neg (Int.not_lt.2 h)

theorem skipBlanks_cons
    {c : Char} {more : List Char}
    (h : isBlank c = false) :
    skipBlanks (c :: more) = c :: more := by
  rw [skipBlanks, h]
  rfl

theorem isBlank_of_isDigit
    {c : Char}
    (hc : c.isDigit = true) :
    isBlank c = false := by
  simp only [isBlank, Bool.or_eq_false_iff, beq_eq_false_iff_ne]
  refine ⟨⟨⟨?_, ?_⟩, ?_⟩, ?_⟩
  all_goals
    rintro rfl
    cases hc

theorem exists_render_cons
    (h : value.IsPrintable) :
    ∃ c more, value.render = c :: more ∧ isBlank c = false ∧ c ≠ ']' := by
  cases h with
  | null =>
      exact ⟨_, _, rfl, by decide, by decide⟩
  | bool flag =>
      cases flag <;> exact ⟨_, _, rfl, by decide, by decide⟩
  | string _ | array _ | object _ =>
      exact ⟨_, _, rfl, by decide, by decide⟩
  | @integer n hnonneg _ =>
      obtain ⟨c, more, hsplit, hc⟩ := exists_toDigits_cons n.natAbs
      rw [render_integer hnonneg]
      refine ⟨c, more, hsplit, isBlank_of_isDigit hc, ?_⟩
      rintro rfl
      cases hc

theorem exists_renderItems_cons
    {item : Value}
    (h : item.IsPrintable)
    (more : List Value) :
    ∃ c behind, Value.renderItems (item :: more) = c :: behind ∧ isBlank c = false ∧ c ≠ ']' := by
  obtain ⟨c, behind, hsplit, hblank, hc⟩ := exists_render_cons h
  cases more with
  | nil =>
      exact ⟨c, behind, hsplit, hblank, hc⟩
  | cons next more =>
      refine ⟨c, behind ++ ',' :: Value.renderItems (next :: more), ?_, hblank, hc⟩
      rw [← List.cons_append, ← hsplit]
      rfl

theorem readItems_render
    (hne : items ≠ [])
    (hitems : ∀ item ∈ items, ReadsBack item)
    (hrounds : (Value.renderItems items).length + 1 < rounds) :
    readItems rounds depth (Value.renderItems items ++ ']' :: rest) =
      if Value.depthOfItems items ≤ depth then some (items, rest) else none := by
  induction items generalizing rounds with
  | nil =>
      exact absurd rfl hne
  | cons item more ih =>
      obtain ⟨rounds, rfl⟩ : ∃ before, rounds = before + 1 := ⟨rounds - 1, by omega⟩
      have hitem := hitems item List.mem_cons_self rounds depth
      simp only [Value.depthOfItems, Nat.max_le]
      cases more with
      | nil =>
          rw [Value.renderItems] at hrounds ⊢
          rw [readItems, hitem _ (by omega) (by simp [Follows])]
          by_cases hdepth : item.depth ≤ depth
          · simp [hdepth, Value.depthOfItems, skipBlanks, isBlank]
          · simp [hdepth]
      | cons next more =>
          have htext : Value.renderItems (item :: next :: more) =
              item.render ++ ',' :: Value.renderItems (next :: more) := rfl
          rw [htext, List.length_append, List.length_cons] at hrounds
          have hmore : readItems rounds depth
              (Value.renderItems (next :: more) ++ ']' :: rest) = _ :=
            ih (by simp) (fun later hlater => hitems later (List.mem_cons_of_mem _ hlater))
              (by omega)
          rw [htext, List.append_assoc, List.cons_append, readItems,
            hitem _ (by omega) (by simp [Follows])]
          by_cases hdepth : item.depth ≤ depth
          · by_cases hlater : Value.depthOfItems (next :: more) ≤ depth
            · simp [hdepth, hlater, hmore, skipBlanks, isBlank]
            · simp [hdepth, hlater, hmore, skipBlanks, isBlank]
          · simp [hdepth]

theorem readMembers_render
    (hne : members ≠ [])
    (hmembers : ∀ member ∈ members, ReadsBack member.2)
    (hrounds : (Value.renderMembers members).length + 1 < rounds) :
    readMembers rounds depth (Value.renderMembers members ++ '\x7d' :: rest) =
      if Value.depthOfMembers members ≤ depth then some (members, rest) else none := by
  induction members generalizing rounds with
  | nil =>
      exact absurd rfl hne
  | cons member more ih =>
      obtain ⟨name, value⟩ := member
      obtain ⟨rounds, rfl⟩ : ∃ before, rounds = before + 1 := ⟨rounds - 1, by omega⟩
      have hvalue : ReadsBack value := hmembers (name, value) List.mem_cons_self
      have hname : ∀ behind, Text.quote name.toList ++ behind =
          '"' :: (name.toList.flatMap Text.escapeChar ++ '"' :: behind) := by
        intro behind
        simp [Text.quote]
      simp only [Value.depthOfMembers, Nat.max_le]
      cases more with
      | nil =>
          rw [Value.renderMembers, List.length_append, List.length_cons] at hrounds
          have hread := hvalue rounds depth ('\x7d' :: rest) (by omega) (by simp [Follows])
          rw [Value.renderMembers, List.append_assoc, List.cons_append, hname, readMembers]
          by_cases hdepth : value.depth ≤ depth
          · simp [readString_quoted, skipBlanks, isBlank, hread, hdepth, Value.depthOfMembers]
          · simp [readString_quoted, skipBlanks, isBlank, hread, hdepth]
      | cons next more =>
          have htext : Value.renderMembers ((name, value) :: next :: more) =
              Text.quote name.toList ++ ':' :: (value.render ++
                ',' :: Value.renderMembers (next :: more)) := by
            simp [Value.renderMembers]
          rw [htext] at hrounds
          simp only [List.length_append, List.length_cons] at hrounds
          have hmore : readMembers rounds depth
              (Value.renderMembers (next :: more) ++ '\x7d' :: rest) = _ :=
            ih (by simp) (fun later hlater => hmembers later (List.mem_cons_of_mem _ hlater))
              (by omega)
          have hread := hvalue rounds depth
            (',' :: (Value.renderMembers (next :: more) ++ '\x7d' :: rest)) (by omega)
            (by simp [Follows])
          rw [htext, List.append_assoc, List.cons_append, hname, readMembers]
          by_cases hdepth : value.depth ≤ depth
          · by_cases hlater : Value.depthOfMembers (next :: more) ≤ depth
            · simp [readString_quoted, skipBlanks, isBlank, hread, hdepth, hmore, hlater]
            · simp [readString_quoted, skipBlanks, isBlank, hread, hdepth, hmore, hlater]
          · simp [readString_quoted, skipBlanks, isBlank, hread, hdepth]

theorem readsBack_of_succ
    (h : ∀ (rounds depth : Nat) (rest : List Char), value.render.length ≤ rounds → Follows rest →
      readValue (rounds + 1) depth (value.render ++ rest) =
        if value.depth ≤ depth then some (value, rest) else none) :
    ReadsBack value := by
  intro rounds depth rest hrounds hrest
  obtain ⟨rounds, rfl⟩ : ∃ before, rounds = before + 1 := ⟨rounds - 1, by omega⟩
  exact h rounds depth rest (by omega) hrest

/-- What does not begin like any other value is read as a number. -/
theorem readValue_digit
    {c : Char}
    (hc : c.isDigit = true)
    (more : List Char) :
    readValue (rounds + 1) depth (c :: more) = readNumber (c :: more) := by
  rw [readValue, skipBlanks_cons (isBlank_of_isDigit hc)]
  split
  all_goals
    first
    | rfl
    | rename_i heq
      cases heq
      exact absurd hc (by decide)

/-- An array is read back if its items are. -/
theorem readsBack_array
    (h : ∀ item ∈ items, item.IsPrintable)
    (hitems : ∀ item ∈ items, ReadsBack item) :
    ReadsBack (.array items) := by
  refine readsBack_of_succ fun rounds depth rest hrounds hrest => ?_
  cases items with
  | nil =>
      cases depth <;>
        simp [Value.render, Value.renderItems, readValue, skipBlanks, isBlank, Value.depth,
          Value.depthOfItems]
  | cons item more =>
      obtain ⟨c, behind, hsplit, hblank, hc⟩ :=
        exists_renderItems_cons (h item List.mem_cons_self) more
      have htext : (Value.array (item :: more)).render =
          '[' :: (Value.renderItems (item :: more) ++ [']']) := by
        simp [Value.render]
      rw [htext] at hrounds ⊢
      simp only [List.length_cons, List.length_append, List.length_nil] at hrounds
      -- The array takes one level and one round, the rest is for its items.
      cases depth with
      | zero =>
          simp [readValue, skipBlanks, isBlank, Value.depth]
      | succ depth =>
          have hread : readItems rounds depth
              (Value.renderItems (item :: more) ++ ']' :: rest) = _ :=
            readItems_render (by simp) hitems (by omega)
          rw [hsplit] at hread ⊢
          simp only [List.cons_append, List.append_assoc, List.nil_append] at hread ⊢
          rw [readValue, skipBlanks_cons rfl]
          by_cases hdepth : Value.depthOfItems (item :: more) ≤ depth
          · simp [skipBlanks_cons hblank, hc, hread, Value.depth, hdepth]
          · simp [skipBlanks_cons hblank, hc, hread, Value.depth, hdepth]

/-- An object is read back if its members are. -/
theorem readsBack_object
    (hmembers : ∀ member ∈ members, ReadsBack member.2) :
    ReadsBack (.object members) := by
  refine readsBack_of_succ fun rounds depth rest hrounds hrest => ?_
  cases members with
  | nil =>
      cases depth <;>
        simp [Value.render, Value.renderMembers, readValue, skipBlanks, isBlank, Value.depth,
          Value.depthOfMembers]
  | cons member more =>
      have htext : (Value.object (member :: more)).render =
          '\x7b' :: (Value.renderMembers (member :: more) ++ ['\x7d']) := by
        simp [Value.render]
      obtain ⟨behind, hsplit⟩ :
          ∃ behind, Value.renderMembers (member :: more) = '"' :: behind := by
        cases more <;> exact ⟨_, rfl⟩
      rw [htext] at hrounds ⊢
      simp only [List.length_cons, List.length_append, List.length_nil] at hrounds
      cases depth with
      | zero =>
          simp [readValue, skipBlanks, isBlank, Value.depth]
      | succ depth =>
          have hread : readMembers rounds depth
              (Value.renderMembers (member :: more) ++ '\x7d' :: rest) = _ :=
            readMembers_render (by simp) hmembers (by omega)
          rw [hsplit] at hread ⊢
          simp only [List.cons_append, List.append_assoc, List.nil_append] at hread ⊢
          rw [readValue, skipBlanks_cons rfl]
          by_cases hdepth : Value.depthOfMembers (member :: more) ≤ depth
          · simp [skipBlanks, isBlank, hread, Value.depth, hdepth]
          · simp [skipBlanks, isBlank, hread, Value.depth, hdepth]

/-- A value is read back from its text. -/
theorem readsBack_of_isPrintable
    (h : value.IsPrintable) :
    ReadsBack value := by
  induction h with
  | null =>
      refine readsBack_of_succ fun rounds depth rest hrounds hrest => ?_
      simp [Value.render, readValue, skipBlanks, isBlank, afterWord?, Value.depth]
      rfl
  | bool flag =>
      refine readsBack_of_succ fun rounds depth rest hrounds hrest => ?_
      cases flag
      all_goals
        simp [Value.render, readValue, skipBlanks, isBlank, afterWord?, Value.depth]
        rfl
  | @integer n hnonneg hlt =>
      refine readsBack_of_succ fun rounds depth rest hrounds hrest => ?_
      obtain ⟨c, more, hsplit, hc⟩ := exists_toDigits_cons n.natAbs
      have hread : readNumber (Nat.toDigits 10 n.natAbs ++ rest) = _ :=
        readNumber_toDigits (by omega) hrest
      rw [render_integer hnonneg]
      rw [hsplit, List.cons_append] at hread ⊢
      rw [readValue_digit hc, hread, Int.natAbs_of_nonneg hnonneg]
      rfl
  | string text =>
      refine readsBack_of_succ fun rounds depth rest hrounds hrest => ?_
      simp [Value.render, Text.quote, readValue, skipBlanks, isBlank, Value.depth,
        readString_quoted]
  | array h ih =>
      exact readsBack_array h ih
  | object _ ih =>
      exact readsBack_object ih

end Values

/-- A text that was printed is read if it is not nested too deep. -/
theorem read?_toText
    {value : Value}
    (h : value.IsPrintable) :
    read? value.toText = if value.depth ≤ maxDepth then some value else none := by
  have hread := readsBack_of_isPrintable h (2 * value.render.length + 2) maxDepth [] (by omega)
    (by simp [Follows])
  rw [List.append_nil] at hread
  rw [read?, Value.toText, String.toList_ofList, hread]
  split <;> rfl

end Json
end FeatureProbes
