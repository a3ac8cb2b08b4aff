import Enclave.Proofs.Text.KeyList

/-! # Key lists with halves of surrogate pairs

The grammar of JSON also derives strings with the escape of one half of a surrogate pair, which
stands for no character. Such a half is read as one replacement character and only its own six
characters are used up, so whatever comes next, a whole pair too, keeps its meaning.
-/
namespace Enclave.Text.KeyList

/-! ## Halves of pairs -/

/-- A code unit that opens a pair. -/
def IsFirstHalf (n : Nat) : Prop :=
  0xD800 ≤ n ∧ n < 0xDC00

/-- A code unit that closes a pair. -/
def IsSecondHalf (n : Nat) : Prop :=
  0xDC00 ≤ n ∧ n < 0xE000

/-- The text goes on with the escape of a unit that closes a pair. -/
def Closes (text : List Char) : Prop :=
  ∃ low n tail, Unit4 low n ∧ IsSecondHalf n ∧ text = '\\' :: 'u' :: (low ++ tail)

/-- Digits after `\u` that spell half of a pair and belong to no pair: the second half where a
character starts, or the first half where no second half comes next. -/
inductive Unpaired (digits rest : List Char) : Prop where
  | second {n : Nat} (h : Unit4 digits n) (hn : IsSecondHalf n) : Unpaired digits rest
  | first {n : Nat} (h : Unit4 digits n) (hn : IsFirstHalf n) (hnext : ¬ Closes rest) :
      Unpaired digits rest

/-- The inside of a string that may hold unpaired halves, each for one replacement character. -/
inductive LooseBody : List Char → List Char → Prop where
  | nil : LooseBody [] []
  | cons {c : Char} {chars first rest : List Char} (hc : Spelling c first)
      (hrest : LooseBody chars rest) : LooseBody (c :: chars) (first ++ rest)
  | unpaired {chars digits rest : List Char} (h : Unpaired digits rest)
      (hrest : LooseBody chars rest) :
      LooseBody ('\uFFFD' :: chars) ('\\' :: 'u' :: (digits ++ rest))

theorem Body.loose {chars body : List Char} (h : Body chars body) : LooseBody chars body := by
  induction h with
  | nil => exact .nil
  | cons hc _ ih => exact .cons hc ih

/-! ## Digits -/

theorem mem_hexDigits_of_lt :
    ∀ n < 103, ∀ i ∈ hexValue? (Char.ofNat n), (Char.ofNat n, i) ∈ hexDigits := by
  decide

theorem mem_hexDigits_of_hexValue? {c : Char} {i : Nat} (h : hexValue? c = some i) :
    (c, i) ∈ hexDigits := by
  have hlt : c.toNat < 103 := by
    simp only [hexValue?, Bool.and_eq_true, decide_eq_true_eq, Char.le_def,
      UInt32.le_iff_toNat_le] at h
    split at h
    · rename_i hc
      exact Nat.lt_of_le_of_lt hc.2 (by decide)
    · split at h
      · rename_i hc
        exact Nat.lt_of_le_of_lt hc.2 (by decide)
      · split at h
        · rename_i hc
          exact Nat.lt_of_le_of_lt hc.2 (by decide)
        · cases h
  have := mem_hexDigits_of_lt c.toNat hlt i
  rw [Char.ofNat_toNat] at this
  exact this h

/-- Only four hexadecimal digits are read as a unit. -/
theorem unit4_of_hex4? {text rest : List Char} {n : Nat} (h : hex4? text = some (n, rest)) :
    ∃ digits, Unit4 digits n ∧ text = digits ++ rest := by
  unfold hex4? at h
  split at h
  · simp only [Option.bind_eq_bind, Option.bind_eq_some_iff, Option.pure_def,
      Option.some.injEq, Prod.mk.injEq] at h
    obtain ⟨i, ha, j, hb, k, hc, l, hd, rfl, rfl⟩ := h
    exact ⟨_, .mk (mem_hexDigits_of_hexValue? ha) (mem_hexDigits_of_hexValue? hb)
      (mem_hexDigits_of_hexValue? hc) (mem_hexDigits_of_hexValue? hd), rfl⟩
  · cases h

theorem quote_notMem_hexDigits : ∀ digit ∈ hexDigits, digit.1 ≠ '\x22' := by
  decide

theorem Unit4.quote_notMem {digits : List Char} {n : Nat} (h : Unit4 digits n) :
    '\x22' ∉ digits := by
  cases h with
  | mk ha hb hc hd =>
    simp only [List.mem_cons, List.not_mem_nil, or_false, not_or]
    exact ⟨(quote_notMem_hexDigits _ ha).symm, (quote_notMem_hexDigits _ hb).symm,
      (quote_notMem_hexDigits _ hc).symm, (quote_notMem_hexDigits _ hd).symm⟩

/-! ## Reading -/

theorem lowEscape?_of_not_closes {text : List Char} (h : ¬ Closes text) :
    lowEscape? text = none := by
  unfold lowEscape?
  split
  · rename_i rest
    split
    · rename_i low tail hhex
      obtain ⟨digits, hdigits, rfl⟩ := unit4_of_hex4? hhex
      rw [if_neg]
      intro hlow
      simp only [isLowSurrogate, Bool.and_eq_true, decide_eq_true_eq] at hlow
      exact h ⟨digits, low, tail, hdigits, hlow, rfl⟩
    · rfl
  · rfl

/-- The quote after an inside does not complete an escape. -/
theorem closes_of_quote {rest after : List Char} (h : Closes (rest ++ '\x22' :: after)) :
    Closes rest := by
  obtain ⟨low, n, tail, hlow, hn, htext⟩ := h
  rw [show '\\' :: 'u' :: (low ++ tail) = ('\\' :: 'u' :: low) ++ tail from rfl] at htext
  obtain ⟨more, rfl, _⟩ | ⟨more, hmore, hafter⟩ := List.append_eq_append_iff.mp htext.symm
  · exact ⟨low, n, more, hlow, hn, rfl⟩
  · cases more with
    | nil => exact ⟨low, n, [], hlow, hn, by simpa using hmore.symm⟩
    | cons c more =>
      obtain ⟨rfl, _⟩ := List.cons.inj hafter
      have hmem : '\x22' ∈ '\\' :: 'u' :: low := by
        rw [hmore]
        simp
      simp only [List.mem_cons, hlow.quote_notMem, or_false] at hmem
      exact absurd hmem (by decide)

theorem Unpaired.quote {digits rest : List Char} (h : Unpaired digits rest) (after : List Char) :
    Unpaired digits (rest ++ '\x22' :: after) := by
  cases h with
  | second h hn => exact .second h hn
  | first h hn hnext => exact .first h hn fun hcloses => hnext (closes_of_quote hcloses)

theorem readUnit_unpaired {digits rest : List Char} (h : Unpaired digits rest) :
    readUnit (digits ++ rest) = ('\uFFFD', rest) := by
  cases h with
  | @second n h hn =>
    have hfirst : isHighSurrogate n = false := by
      simp only [isHighSurrogate, Bool.and_eq_false_iff, decide_eq_false_iff_not]
      exact .inr (Nat.not_lt.mpr hn.1)
    have hsecond : isLowSurrogate n = true := by
      simp only [isLowSurrogate, Bool.and_eq_true, decide_eq_true_eq]
      exact hn
    simp [readUnit, hex4?_unit4 h, loneUnit, hfirst, hsecond]
  | @first n h hn hnext =>
    have hfirst : isHighSurrogate n = true := by
      simp only [isHighSurrogate, Bool.and_eq_true, decide_eq_true_eq]
      exact hn
    simp [readUnit, hex4?_unit4 h, loneUnit, hfirst, lowEscape?_of_not_closes hnext]

/-- An unpaired half is one replacement character, and what follows its four digits is read as it
would be without it. -/
theorem readBody_unpaired {digits rest : List Char} (h : Unpaired digits rest) :
    readBody ('\\' :: 'u' :: (digits ++ rest)) =
      ('\uFFFD' :: (readBody rest).1, (readBody rest).2) := by
  rw [readBody, readUnit_unpaired h]

theorem readBody_loose {chars body : List Char} (h : LooseBody chars body) (rest : List Char) :
    readBody (body ++ '\x22' :: rest) = (chars, some rest) := by
  induction h with
  | nil => rw [List.nil_append, readBody]
  | cons hc _ ih => rw [List.append_assoc, readBody_spelling hc, ih]
  | unpaired h _ ih =>
    rw [List.cons_append, List.cons_append, List.append_assoc, readBody_unpaired (h.quote rest), ih]

/-- Every spelling of a list is read as that list, whatever follows its closing bracket, also with
unpaired halves in its strings; and wherever an unpaired half stands, it is one replacement
character and uses up nothing after its digits. -/
theorem read_every_spelling :
    (∀ (keys : List String) (text after : List Char), Spells keys text →
      read (String.ofList (text ++ after)) = keys) ∧
    (∀ (keys : List String) (text after : List Char), ArrayOf LooseBody keys text →
      read (String.ofList (text ++ after)) = keys) ∧
    ∀ digits rest : List Char, Unpaired digits rest →
      readBody ('\\' :: 'u' :: (digits ++ rest)) =
        ('\uFFFD' :: (readBody rest).1, (readBody rest).2) := by
  have hloose : ∀ (keys : List String) (text after : List Char), ArrayOf LooseBody keys text →
      read (String.ofList (text ++ after)) = keys :=
    fun _ _ after h => read_arrayOf (fun _ _ => readBody_loose) h after
  exact ⟨fun keys text after h => hloose keys text after (h.arrayOf fun _ _ => Body.loose), hloose,
    fun _ _ => readBody_unpaired⟩

/-- A pair, then a first half without a second one before another pair, with blanks around the
strings and more text after the array. -/
theorem read_every_spelling_halves :
    Spells ["😀"] "\t[\"\\ud83D\\uDE00\" ]".toList ∧
    read "\t[\"\\ud83D\\uDE00\" ], \"x\"]" = ["😀"] ∧
    Unpaired "D83d".toList "\\ud83D\\uDE00".toList ∧
    ArrayOf LooseBody ["\uFFFD😀"] "[ \"\\uD83d\\ud83D\\uDE00\"]".toList ∧
    read "[ \"\\uD83d\\ud83D\\uDE00\"]]" = ["\uFFFD😀"] ∧
    readBody "\\uD83d\\ud83D\\uDE00".toList = (['\uFFFD', '😀'], none) := by
  have hhigh : Unit4 "d83D".toList 0xD83D :=
    @Unit4.mk 'd' '8' '3' 'D' 13 8 3 13 (by decide) (by decide) (by decide) (by decide)
  have hlow : Unit4 "DE00".toList 0xDE00 :=
    @Unit4.mk 'D' 'E' '0' '0' 13 14 0 0 (by decide) (by decide) (by decide) (by decide)
  have hpair : Spelling '😀' "\\ud83D\\uDE00".toList := by
    have hfirst : 0xD800 + ('😀'.toNat - 0x10000) / 1024 = 0xD83D := by decide
    have hsecond : 0xDC00 + ('😀'.toNat - 0x10000) % 1024 = 0xDE00 := by decide
    exact .pair (by decide) (hfirst.symm ▸ hhigh) (hsecond.symm ▸ hlow)
  have hnone : ∀ c ∈ ([] : List Char), isBlank c = true := List.forall_mem_nil _
  have hblank : ∀ c ∈ [' '], isBlank c = true := List.forall_mem_singleton.mpr rfl
  have htab : ∀ c ∈ ['\t'], isBlank c = true := List.forall_mem_singleton.mpr rfl
  have hspells : Spells ["😀"] "\t[\"\\ud83D\\uDE00\" ]".toList :=
    @Spells.items _ ['\t'] _ htab (.last (@Item.mk "😀" [] _ [' '] hnone (.cons hpair .nil) hblank))
  have hnext : ¬ Closes "\\ud83D\\uDE00".toList := by
    rintro ⟨low, n, tail, hunit, hn, htext⟩
    have hread := hex4?_unit4 hunit tail
    rw [← List.cons.inj (List.cons.inj htext).2 |>.2] at hread
    obtain ⟨rfl, _⟩ := Prod.mk.inj (Option.some.inj hread)
    exact absurd hn.1 (by decide)
  have hunpaired : Unpaired "D83d".toList "\\ud83D\\uDE00".toList :=
    .first (@Unit4.mk 'D' '8' '3' 'd' 13 8 3 13 (by decide) (by decide) (by decide) (by decide))
      (by unfold IsFirstHalf; decide) hnext
  have hloose : ArrayOf LooseBody ["\uFFFD😀"] "[ \"\\uD83d\\ud83D\\uDE00\"]".toList :=
    @ArrayOf.items _ _ [] _ hnone (.last (@ItemOf.mk LooseBody "\uFFFD😀" [' '] _ [] hblank
      (LooseBody.unpaired hunpaired (.cons hpair .nil)) hnone))
  refine ⟨hspells, read_every_spelling.1 _ _ ", \"x\"]".toList hspells, hunpaired, hloose,
    read_every_spelling.2.1 _ _ "]".toList hloose, ?_⟩
  have hbody : readBody "\\ud83D\\uDE00".toList = (['😀'], none) := by
    have := readBody_spelling hpair []
    rwa [List.append_nil, readBody] at this
  exact (read_every_spelling.2.2 _ _ hunpaired).trans (by rw [hbody])

end Enclave.Text.KeyList
