import Enclave.Proofs.Text.Bytes
import Enclave.Text.KeyList

/-! # Key lists are read as they were written

A text is a spelling of a list of keys if the grammar of JSON derives it as an array of strings that
stand for these keys. Every spelling is read as exactly that list, also after it has crossed the
boundary, and what the writer makes of a list is one of its spellings.
-/
namespace Enclave.Text.KeyList

/-! ## Spellings -/

/-- The hexadecimal digits, in both cases, with their values. -/
def hexDigits : List (Char × Nat) :=
  "0123456789".toList.zipIdx ++ "abcdef".toList.zipIdx 10 ++ "ABCDEF".toList.zipIdx 10

/-- The characters that stand for one character after a backslash. -/
def shortEscapes : List (Char × Char) :=
  [('\x22', '\x22'), ('\\', '\\'), ('/', '/'), ('b', '\x08'), ('f', '\x0c'), ('n', '\n'),
    ('r', '\r'), ('t', '\t')]

/-- Four hexadecimal digits that spell a code unit. -/
inductive Unit4 : List Char → Nat → Prop where
  | mk {a b c d : Char} {i j k l : Nat} (ha : (a, i) ∈ hexDigits) (hb : (b, j) ∈ hexDigits)
      (hc : (c, k) ∈ hexDigits) (hd : (d, l) ∈ hexDigits) :
      Unit4 [a, b, c, d] (((i * 16 + j) * 16 + k) * 16 + l)

/-- The ways to write a character inside a string: as it is, unless it is a quote, a backslash or a
control character, by a short escape, by its code unit, or by a pair of surrogates. -/
inductive Spelling : Char → List Char → Prop where
  | raw {c : Char} (hquote : c ≠ '\x22') (hslash : c ≠ '\\') (hcontrol : 32 ≤ c.toNat) :
      Spelling c [c]
  | short {c e : Char} (h : (e, c) ∈ shortEscapes) : Spelling c ['\\', e]
  | unit {c : Char} {digits : List Char} (h : Unit4 digits c.toNat) :
      Spelling c ('\\' :: 'u' :: digits)
  | pair {c : Char} {high low : List Char} (hc : 0x10000 ≤ c.toNat)
      (hhigh : Unit4 high (0xD800 + (c.toNat - 0x10000) / 1024))
      (hlow : Unit4 low (0xDC00 + (c.toNat - 0x10000) % 1024)) :
      Spelling c ('\\' :: 'u' :: (high ++ '\\' :: 'u' :: low))

/-- The inside of a string. -/
inductive Body : List Char → List Char → Prop where
  | nil : Body [] []
  | cons {c : Char} {chars first rest : List Char} (hc : Spelling c first)
      (hrest : Body chars rest) : Body (c :: chars) (first ++ rest)

/-- A string between blanks. -/
inductive Item : String → List Char → Prop where
  | mk {key : String} {before body after : List Char} (hbefore : ∀ c ∈ before, isBlank c = true)
      (hbody : Body key.toList body) (hafter : ∀ c ∈ after, isBlank c = true) :
      Item key (before ++ '\x22' :: (body ++ '\x22' :: after))

/-- The strings of an array up to its closing bracket. -/
inductive Items : List String → List Char → Prop where
  | last {key : String} {item : List Char} (h : Item key item) : Items [key] (item ++ [']'])
  | more {key : String} {keys : List String} {item rest : List Char} (h : Item key item)
      (hrest : Items keys rest) : Items (key :: keys) (item ++ ',' :: rest)

/-- An array of strings after any blanks. -/
inductive Spells : List String → List Char → Prop where
  | empty {before inside : List Char} (hbefore : ∀ c ∈ before, isBlank c = true)
      (hinside : ∀ c ∈ inside, isBlank c = true) : Spells [] (before ++ '[' :: (inside ++ [']']))
  | items {keys : List String} {before rest : List Char} (hbefore : ∀ c ∈ before, isBlank c = true)
      (hrest : Items keys rest) : Spells keys (before ++ '[' :: rest)

/-! ## Reading characters -/

theorem hexValue?_of_mem : ∀ digit ∈ hexDigits, hexValue? digit.1 = some digit.2 := by
  decide

theorem hex4?_unit4 {digits : List Char} {n : Nat} (h : Unit4 digits n) (rest : List Char) :
    hex4? (digits ++ rest) = some (n, rest) := by
  cases h with
  | mk ha hb hc hd =>
    simp [hex4?, hexValue?_of_mem _ ha, hexValue?_of_mem _ hb, hexValue?_of_mem _ hc,
      hexValue?_of_mem _ hd]

theorem unescape_of_mem :
    ∀ escape ∈ shortEscapes, unescape escape.1 = escape.2 ∧ escape.1 ≠ 'u' := by
  decide

/-- A unit that is a character of its own. -/
theorem readUnit_unit {c : Char} {digits : List Char} (h : Unit4 digits c.toNat)
    (rest : List Char) : readUnit (digits ++ rest) = (c, rest) := by
  have hhigh : isHighSurrogate c.toNat = false := by
    have := toNat_char c
    simp only [isHighSurrogate, Bool.and_eq_false_iff, decide_eq_false_iff_not]
    omega
  have hlow : isLowSurrogate c.toNat = false := by
    have := toNat_char c
    simp only [isLowSurrogate, Bool.and_eq_false_iff, decide_eq_false_iff_not]
    omega
  simp [readUnit, hex4?_unit4 h, loneUnit, hhigh, hlow, Char.ofNat_toNat]

theorem readUnit_pair {c : Char} {high low : List Char} (hc : 0x10000 ≤ c.toNat)
    (hhigh : Unit4 high (0xD800 + (c.toNat - 0x10000) / 1024))
    (hlow : Unit4 low (0xDC00 + (c.toNat - 0x10000) % 1024)) (rest : List Char) :
    readUnit (high ++ '\\' :: 'u' :: (low ++ rest)) = (c, rest) := by
  have hbound := toNat_char c
  have h : isHighSurrogate (0xD800 + (c.toNat - 0x10000) / 1024) = true := by
    simp only [isHighSurrogate, Bool.and_eq_true, decide_eq_true_eq]
    omega
  have l : isLowSurrogate (0xDC00 + (c.toNat - 0x10000) % 1024) = true := by
    simp only [isLowSurrogate, Bool.and_eq_true, decide_eq_true_eq]
    omega
  have hjoin : joinSurrogates (0xD800 + (c.toNat - 0x10000) / 1024)
      (0xDC00 + (c.toNat - 0x10000) % 1024) = c := by
    rw [joinSurrogates, show 0x10000 + (0xD800 + (c.toNat - 0x10000) / 1024 - 0xD800) * 1024 +
      (0xDC00 + (c.toNat - 0x10000) % 1024 - 0xDC00) = c.toNat by omega, Char.ofNat_toNat]
  simp [readUnit, hex4?_unit4 hhigh, h, lowEscape?, hex4?_unit4 hlow, l, hjoin]

/-- Every spelling of a character is read as that character and used up. -/
theorem readBody_spelling {c : Char} {first : List Char} (h : Spelling c first)
    (rest : List Char) :
    readBody (first ++ rest) = (c :: (readBody rest).1, (readBody rest).2) := by
  cases h with
  | raw hquote hslash _ =>
    rw [List.singleton_append, readBody]
    · exact hquote
    · exact fun h _ => hslash h
    · exact fun _ h _ => hslash h
    · exact fun _ _ h _ => hslash h
  | short h =>
    obtain ⟨hchar, hunit⟩ := unescape_of_mem _ h
    simp only [List.cons_append, List.nil_append]
    rw [readBody.eq_5 _ _ hunit, hchar]
  | unit h =>
    simp only [List.cons_append]
    rw [readBody, readUnit_unit h]
  | pair hc hhigh hlow =>
    simp only [List.cons_append, List.append_assoc]
    rw [readBody, readUnit_pair hc hhigh hlow]

theorem readBody_body {chars body : List Char} (h : Body chars body) (rest : List Char) :
    readBody (body ++ '\x22' :: rest) = (chars, some rest) := by
  induction h with
  | nil => rw [List.nil_append, readBody]
  | cons hc _ ih => rw [List.append_assoc, readBody_spelling hc, ih]

/-! ## Reading lists -/

theorem dropWhile_blanks {before : List Char} (h : ∀ c ∈ before, isBlank c = true)
    {c : Char} (hc : isBlank c = false) (rest : List Char) :
    (before ++ c :: rest).dropWhile isBlank = c :: rest := by
  rw [List.dropWhile_append_of_pos h, List.dropWhile_cons_of_neg (by simp [hc])]

/-- One string, and as long as a comma follows, the next ones. -/
theorem readItems_eq (text : List Char) :
    readItems text =
      match readItem? text with
      | none => []
      | some (key, none) => [key]
      | some (key, some rest) => key :: readItems rest := by
  rw [readItems]
  split <;> rename_i h <;> simp only [h]

section Insides

variable {Inside : List Char → List Char → Prop}

/-- A string between blanks, written as `Inside` says. -/
inductive ItemOf (Inside : List Char → List Char → Prop) : String → List Char → Prop where
  | mk {key : String} {before body after : List Char} (hbefore : ∀ c ∈ before, isBlank c = true)
      (hbody : Inside key.toList body) (hafter : ∀ c ∈ after, isBlank c = true) :
      ItemOf Inside key (before ++ '\x22' :: (body ++ '\x22' :: after))

/-- Such strings up to the closing bracket of their array. -/
inductive ItemsOf (Inside : List Char → List Char → Prop) : List String → List Char → Prop where
  | last {key : String} {item : List Char} (h : ItemOf Inside key item) :
      ItemsOf Inside [key] (item ++ [']'])
  | more {key : String} {keys : List String} {item rest : List Char} (h : ItemOf Inside key item)
      (hrest : ItemsOf Inside keys rest) : ItemsOf Inside (key :: keys) (item ++ ',' :: rest)

/-- An array of such strings after any blanks. -/
inductive ArrayOf (Inside : List Char → List Char → Prop) : List String → List Char → Prop where
  | empty {before inside : List Char} (hbefore : ∀ c ∈ before, isBlank c = true)
      (hinside : ∀ c ∈ inside, isBlank c = true) :
      ArrayOf Inside [] (before ++ '[' :: (inside ++ [']']))
  | items {keys : List String} {before rest : List Char} (hbefore : ∀ c ∈ before, isBlank c = true)
      (hrest : ItemsOf Inside keys rest) : ArrayOf Inside keys (before ++ '[' :: rest)

/-- After a string comes what stands behind the comma, or nothing. -/
theorem readItem?_itemOf
    (hinside : ∀ chars body, Inside chars body → ∀ rest,
      readBody (body ++ '\x22' :: rest) = (chars, some rest))
    {key : String} {item : List Char} (h : ItemOf Inside key item) {c : Char}
    (hc : isBlank c = false) (rest : List Char) :
    readItem? (item ++ c :: rest) = some (key, if c = ',' then some rest else none) := by
  cases h with
  | mk hbefore hbody hafter =>
    simp only [List.append_assoc, List.cons_append]
    simp only [readItem?, dropWhile_blanks hbefore (show isBlank '\x22' = false from rfl),
      hinside _ _ hbody, Option.bind_some, dropWhile_blanks hafter hc, String.ofList_toList]
    by_cases hcomma : c = ','
    · simp [hcomma]
    · simp only [hcomma, if_false, Option.some.injEq, Prod.mk.injEq, true_and]
      split
      · rename_i heq
        simp only [List.cons.injEq] at heq
        exact absurd heq.1 hcomma
      · rfl

theorem readItems_itemsOf
    (hinside : ∀ chars body, Inside chars body → ∀ rest,
      readBody (body ++ '\x22' :: rest) = (chars, some rest))
    {keys : List String} {text : List Char} (h : ItemsOf Inside keys text)
    (after : List Char) : readItems (text ++ after) = keys := by
  induction h with
  | last h =>
    rw [List.append_assoc, List.singleton_append, readItems_eq, readItem?_itemOf hinside h rfl]
    rfl
  | more h _ ih =>
    rw [List.append_assoc, List.cons_append, readItems_eq, readItem?_itemOf hinside h rfl]
    exact congrArg _ ih

/-- If the insides of strings are read as what they stand for, so are the arrays of them, whatever
follows the closing bracket. -/
theorem read_arrayOf
    (hinside : ∀ chars body, Inside chars body → ∀ rest,
      readBody (body ++ '\x22' :: rest) = (chars, some rest))
    {keys : List String} {text : List Char} (h : ArrayOf Inside keys text)
    (after : List Char) : read (String.ofList (text ++ after)) = keys := by
  rw [read, String.toList_ofList]
  cases h with
  | @empty _ inside hbefore hblank =>
    rw [List.append_assoc, List.cons_append, dropWhile_blanks hbefore rfl]
    have hnone : readItem? (inside ++ [']'] ++ after) = none := by
      rw [readItem?, List.append_assoc, List.singleton_append, dropWhile_blanks hblank rfl]
      rfl
    change readItems (inside ++ [']'] ++ after) = []
    rw [readItems_eq, hnone]
  | items hbefore hrest =>
    rw [List.append_assoc, List.cons_append, dropWhile_blanks hbefore rfl]
    exact readItems_itemsOf hinside hrest after

theorem Item.itemOf (hbody : ∀ chars body, Body chars body → Inside chars body)
    {key : String} {item : List Char} (h : Item key item) : ItemOf Inside key item := by
  cases h with
  | mk hbefore hinside hafter => exact .mk hbefore (hbody _ _ hinside) hafter

theorem Items.itemsOf (hbody : ∀ chars body, Body chars body → Inside chars body)
    {keys : List String} {text : List Char} (h : Items keys text) : ItemsOf Inside keys text := by
  induction h with
  | last h => exact .last (h.itemOf hbody)
  | more h _ ih => exact .more (h.itemOf hbody) ih

/-- Spellings of lists are arrays for any insides that take in those of JSON. -/
theorem Spells.arrayOf (hbody : ∀ chars body, Body chars body → Inside chars body)
    {keys : List String} {text : List Char} (h : Spells keys text) : ArrayOf Inside keys text := by
  cases h with
  | empty hbefore hinside => exact .empty hbefore hinside
  | items hbefore hrest => exact .items hbefore (hrest.itemsOf hbody)

end Insides

/-- Every spelling of a list is read as that list, whatever follows its closing bracket. -/
theorem read_spells {keys : List String} {text : List Char} (h : Spells keys text)
    (after : List Char) : read (String.ofList (text ++ after)) = keys :=
  read_arrayOf (fun _ _ => readBody_body) (h.arrayOf fun _ _ hbody => hbody) after

/-! ## Crossing the boundary

A zero character can only be spelled by an escape, so no spelling is cut short on the other side.
-/

theorem zero_notMem_hexDigits : ∀ digit ∈ hexDigits, digit.1 ≠ '\x00' := by
  decide

theorem Unit4.zero_notMem {digits : List Char} {n : Nat} (h : Unit4 digits n) :
    '\x00' ∉ digits := by
  cases h with
  | mk ha hb hc hd =>
    simp only [List.mem_cons, List.not_mem_nil, or_false, not_or]
    exact ⟨(zero_notMem_hexDigits _ ha).symm, (zero_notMem_hexDigits _ hb).symm,
      (zero_notMem_hexDigits _ hc).symm, (zero_notMem_hexDigits _ hd).symm⟩

theorem zero_notMem_shortEscapes : ∀ escape ∈ shortEscapes, escape.1 ≠ '\x00' := by
  decide

theorem Spelling.zero_notMem {c : Char} {text : List Char} (h : Spelling c text) :
    '\x00' ∉ text := by
  cases h with
  | raw _ _ hcontrol =>
    rw [List.mem_singleton]
    rintro rfl
    exact absurd hcontrol (by decide)
  | short h => simpa using (zero_notMem_shortEscapes _ h).symm
  | unit h => simpa using h.zero_notMem
  | pair _ hhigh hlow => simpa using ⟨hhigh.zero_notMem, hlow.zero_notMem⟩

theorem Body.zero_notMem {chars body : List Char} (h : Body chars body) : '\x00' ∉ body := by
  induction h with
  | nil => simp
  | cons hc _ ih => simpa using ⟨hc.zero_notMem, ih⟩

theorem zero_notMem_blanks {text : List Char} (h : ∀ c ∈ text, isBlank c = true) :
    '\x00' ∉ text :=
  fun hmem => absurd (h _ hmem) (by decide)

theorem Item.zero_notMem {key : String} {item : List Char} (h : Item key item) :
    '\x00' ∉ item := by
  cases h with
  | mk hbefore hbody hafter =>
    simpa using ⟨zero_notMem_blanks hbefore, hbody.zero_notMem, zero_notMem_blanks hafter⟩

theorem Items.zero_notMem {keys : List String} {text : List Char} (h : Items keys text) :
    '\x00' ∉ text := by
  induction h with
  | last h => simpa using h.zero_notMem
  | more h _ ih => simpa using ⟨h.zero_notMem, ih⟩

theorem Spells.isPlain {keys : List String} {text : List Char} (h : Spells keys text) :
    IsPlain (String.ofList text) := by
  rw [IsPlain, String.toList_ofList]
  cases h with
  | empty hbefore hinside =>
    simpa using ⟨zero_notMem_blanks hbefore, zero_notMem_blanks hinside⟩
  | items hbefore hrest => simpa using ⟨zero_notMem_blanks hbefore, hrest.zero_notMem⟩

/-- Every spelling of a list crosses the boundary whole and is read as that list. -/
theorem read_sent {keys : List String} {text : List Char} (h : Spells keys text) :
    read (readText (untilZero (encode (String.ofList text)))) = keys := by
  rw [untilZero_encode, cut_eq_self h.isPlain, readText_encode, cut_eq_self h.isPlain,
    ← List.append_nil text]
  exact read_spells h []

/-! ## Writing -/

theorem hexDigit_mem : ∀ n, n < 16 → (hexDigit n, n) ∈ hexDigits := by
  decide

theorem spelling_writeChar (c : Char) : Spelling c (writeChar c) := by
  unfold writeChar
  split
  case h_8 hquote hslash _ _ _ _ _ =>
    split
    · rename_i hcontrol
      have hunit : Unit4 ['0', '0', hexDigit (c.toNat / 16), hexDigit (c.toNat % 16)]
          (((0 * 16 + 0) * 16 + c.toNat / 16) * 16 + c.toNat % 16) :=
        .mk (by decide) (by decide) (hexDigit_mem _ (by omega)) (hexDigit_mem _ (by omega))
      rw [show ((0 * 16 + 0) * 16 + c.toNat / 16) * 16 + c.toNat % 16 = c.toNat by omega] at hunit
      exact .unit hunit
    · exact .raw hquote hslash (by omega)
  all_goals exact .short (by decide)

theorem body_write (chars : List Char) : Body chars (chars.flatMap writeChar) := by
  induction chars with
  | nil => exact .nil
  | cons c rest ih => exact .cons (spelling_writeChar c) ih

theorem item_writeKey (key : String) : Item key (writeKey key) :=
  @Item.mk key [] _ [] (by simp) (body_write key.toList) (by simp)

theorem items_write (key : String) (keys : List String) :
    Items (key :: keys) (List.intercalate [','] ((key :: keys).map writeKey) ++ [']']) := by
  induction keys generalizing key with
  | nil => simpa using Items.last (item_writeKey key)
  | cons next rest ih =>
    have := Items.more (item_writeKey key) (ih next)
    simpa [List.intercalate] using this

/-- What is written for a list is a spelling of it. -/
theorem spells_write (keys : List String) : Spells keys (write keys).toList := by
  rw [write, String.toList_ofList]
  cases keys with
  | nil => exact @Spells.empty [] [] (by simp) (by simp)
  | cons key rest => exact @Spells.items _ [] _ (by simp) (items_write key rest)

theorem read_write_sent (keys : List String) :
    read (readText (untilZero (encode (write keys)))) = keys := by
  have := read_sent (spells_write keys)
  rwa [String.ofList_toList] at this

end Enclave.Text.KeyList
