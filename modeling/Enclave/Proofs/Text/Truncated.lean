import Enclave.Proofs.Text.KeyList

/-! # Key lists that were cut short

The text of a key list may be cut anywhere. Keys whose closing quote is still there are read as they
are. A cut inside a string leaves one more, the beginning of its key: the characters that were
written whole. Of an escape that was begun nothing is read, unless it is known for a code unit by
then: a replacement character stands for it and its digits for themselves.
-/
namespace Enclave.Text.KeyList

/-! ## Where a cut lies -/

/-- The text up to the quote that opens the string of the key at the place `i`. -/
def upToOpening (keys : List String) (i : Nat) : List Char :=
  '[' :: ((keys.take i).flatMap (fun key => writeKey key ++ [',']) ++ ['\x22'])

/-- The text up to the quote that closes the string of the key at the place `i`. -/
def upToClosing (keys : List String) (i : Nat) : List Char :=
  upToOpening keys i ++ ((keys.getD i "").toList.flatMap writeChar ++ ['\x22'])

/-- How many keys have their closing quote among the first `n` characters. -/
def closedIn (keys : List String) (n : Nat) : Nat :=
  (List.range keys.length).countP fun i => (upToClosing keys i).length ≤ n

/-- A cut after `n` characters lies between the quotes of a key. -/
def InString (keys : List String) (n : Nat) : Prop :=
  ∃ i < keys.length, (upToOpening keys i).length ≤ n ∧ n < (upToClosing keys i).length

instance (keys : List String) (n : Nat) : Decidable (InString keys n) :=
  inferInstanceAs (Decidable (∃ i < keys.length, _))

/-- The beginning of the spelling of the next one of some characters, but not all of it. -/
def Begins (part : List Char) : List Char → Prop
  | [] => part = []
  | c :: _ => part <+: writeChar c ∧ part ≠ writeChar c

/-- What is read of a spelling that was begun. -/
def remnant : List Char → List Char
  | '\\' :: 'u' :: digits => '\uFFFD' :: digits
  | _ => []

/-- What a text that was cut inside the string of the key at the place `j` has for that key. -/
inductive Leaves (keys : List String) (j : Nat) (cut : List Char) : String → Prop where
  | mk {key : String} {seen unseen part : List Char} (hkey : keys[j]? = some key)
      (hchars : key.toList = seen ++ unseen) (hbegins : Begins part unseen)
      (hcut : cut = upToOpening keys j ++ (seen.flatMap writeChar ++ part)) :
      Leaves keys j cut (String.ofList (seen ++ remnant part))

/-! ## The inside of a string -/

theorem raw_of_mem_hexDigits : ∀ digit ∈ hexDigits, digit.1 ≠ '\x22' ∧ digit.1 ≠ '\\' := by
  decide

/-- Characters that need no escape are read as they are. -/
theorem readBody_raw {chars : List Char} (h : ∀ c ∈ chars, c ≠ '\x22' ∧ c ≠ '\\') :
    readBody chars = (chars, none) := by
  induction chars with
  | nil => rw [readBody]
  | cons c rest ih =>
    obtain ⟨hquote, hslash⟩ := h c List.mem_cons_self
    rw [readBody]
    · rw [ih fun d hd => h d (List.mem_cons_of_mem c hd)]
    · exact hquote
    · exact fun h _ => hslash h
    · exact fun _ h _ => hslash h
    · exact fun _ _ h _ => hslash h

/-- Too few digits make no code unit. -/
theorem hex4?_short {digits : List Char} (h : digits.length < 4) : hex4? digits = none := by
  unfold hex4?
  split
  · simp only [List.length_cons] at h
    omega
  · rfl

/-- A code unit without all of its digits. -/
theorem readBody_cutUnit {digits : List Char} (hshort : digits.length < 4)
    (hraw : ∀ c ∈ digits, c ≠ '\x22' ∧ c ≠ '\\') :
    readBody ('\\' :: 'u' :: digits) = ('\uFFFD' :: digits, none) := by
  have hunit : readUnit digits = ('\uFFFD', digits) := by
    unfold readUnit
    rw [hex4?_short hshort]
  rw [readBody, hunit, readBody_raw hraw]

/-- What the writer makes of a character: itself, a short escape or a code unit. -/
theorem writeChar_forms (c : Char) :
    writeChar c = [c] ∨ (∃ e, writeChar c = ['\\', e]) ∨
      ∃ digits, digits.length = 4 ∧ (∀ d ∈ digits, d ≠ '\x22' ∧ d ≠ '\\') ∧
        writeChar c = '\\' :: 'u' :: digits := by
  unfold writeChar
  split
  case h_8 =>
    split
    · refine .inr (.inr ⟨_, rfl, ?_, rfl⟩)
      have hdigit : ∀ n < 16, hexDigit n ≠ '\x22' ∧ hexDigit n ≠ '\\' := fun n hn =>
        raw_of_mem_hexDigits _ (hexDigit_mem n hn)
      simp only [List.mem_cons, List.not_mem_nil, or_false]
      rintro d (rfl | rfl | rfl | rfl)
      · decide
      · decide
      · exact hdigit _ (by omega)
      · exact hdigit _ (by omega)
    · exact .inl rfl
  all_goals exact .inr (.inl ⟨_, rfl⟩)

theorem readBody_nothing : readBody [] = (remnant [], none) := by
  rw [readBody, remnant]
  simp

theorem readBody_backslash : readBody ['\\'] = (remnant ['\\'], none) := by
  rw [readBody, remnant]
  simp

/-- A spelling that was begun and nothing after it. -/
theorem readBody_part {c : Char} {part : List Char} (hpart : part <+: writeChar c)
    (hcut : part ≠ writeChar c) : readBody part = (remnant part, none) := by
  obtain hraw | ⟨e, hshort⟩ | ⟨digits, hlength, hdigits, hunit⟩ := writeChar_forms c
  · rw [hraw, List.prefix_cons_iff] at hpart
    obtain rfl | ⟨rest, rfl, hrest⟩ := hpart
    · exact readBody_nothing
    · rw [List.prefix_nil.mp hrest] at hcut
      exact absurd hraw.symm hcut
  · rw [hshort, List.prefix_cons_iff] at hpart
    obtain rfl | ⟨rest, rfl, hrest⟩ := hpart
    · exact readBody_nothing
    obtain rfl | ⟨tail, rfl, htail⟩ := List.prefix_cons_iff.mp hrest
    · exact readBody_backslash
    · rw [List.prefix_nil.mp htail] at hcut
      exact absurd hshort.symm hcut
  · rw [hunit, List.prefix_cons_iff] at hpart
    obtain rfl | ⟨rest, rfl, hrest⟩ := hpart
    · exact readBody_nothing
    obtain rfl | ⟨seen, rfl, hseen⟩ := List.prefix_cons_iff.mp hrest
    · exact readBody_backslash
    have hshort : seen.length < 4 := by
      refine lt_of_le_of_ne (hlength ▸ hseen.length_le) fun hall => hcut ?_
      rw [hseen.eq_of_length (by rw [hall, hlength]), hunit]
    exact readBody_cutUnit hshort fun d hd => hdigits d (hseen.subset hd)

/-- Where a cut inside the spelling of some characters falls: after some whole ones, in the next
one, and what is read up to there. -/
theorem readBody_take {chars : List Char} {n : Nat} (hn : n ≤ (chars.flatMap writeChar).length) :
    ∃ seen unseen part, chars = seen ++ unseen ∧ Begins part unseen ∧
      (chars.flatMap writeChar).take n = seen.flatMap writeChar ++ part ∧
      readBody ((chars.flatMap writeChar).take n) = (seen ++ remnant part, none) := by
  induction chars generalizing n with
  | nil =>
    refine ⟨[], [], [], rfl, rfl, ?_, ?_⟩
    · simp
    · rw [List.flatMap_nil, List.take_nil]
      exact readBody_nothing
  | cons c rest ih =>
    rw [List.flatMap_cons] at hn ⊢
    by_cases hfirst : n < (writeChar c).length
    · -- the cut falls in the first character
      have hpart : (writeChar c).take n <+: writeChar c := List.take_prefix n _
      have hcut : (writeChar c).take n ≠ writeChar c := fun h => by
        have := congrArg List.length h
        rw [List.length_take] at this
        omega
      rw [List.take_append_of_le_length hfirst.le]
      exact ⟨[], c :: rest, _, rfl, ⟨hpart, hcut⟩, rfl, readBody_part hpart hcut⟩
    · rw [List.length_append] at hn
      obtain ⟨seen, unseen, part, rfl, hbegins, htext, hread⟩ :=
        ih (n := n - (writeChar c).length) (by omega)
      rw [List.take_append, List.take_of_length_le (by omega),
        readBody_spelling (spelling_writeChar c), hread, htext]
      exact ⟨c :: seen, unseen, part, rfl, hbegins, by simp, rfl⟩

/-! ## The places of the quotes -/

/-- The text after the bracket that opens a list. -/
def items (keys : List String) : List Char :=
  List.intercalate [','] (keys.map writeKey) ++ [']']

theorem toList_write (keys : List String) : (write keys).toList = '[' :: items keys :=
  String.toList_ofList

/-- The text after a string that the strings of `keys` follow. -/
def behind : List String → List Char
  | [] => [']']
  | next :: keys => ',' :: items (next :: keys)

theorem items_cons (key : String) (keys : List String) :
    items (key :: keys) = writeKey key ++ behind keys := by
  cases keys with
  | nil => simp [items, behind]
  | cons next keys => simp [items, behind, List.intercalate]

theorem upToOpening_succ (key : String) (keys : List String) (i : Nat) :
    ∃ text, upToOpening keys i = '[' :: text ∧
      upToOpening (key :: keys) (i + 1) = '[' :: (writeKey key ++ ',' :: text) :=
  ⟨_, rfl, by simp [upToOpening]⟩

theorem length_upToOpening_succ (key : String) (keys : List String) (i : Nat) :
    (upToOpening (key :: keys) (i + 1)).length =
      (upToOpening keys i).length + ((writeKey key).length + 1) := by
  obtain ⟨text, htext, hnext⟩ := upToOpening_succ key keys i
  rw [htext, hnext]
  simp only [List.length_cons, List.length_append]
  omega

theorem length_upToClosing_succ (key : String) (keys : List String) (i : Nat) :
    (upToClosing (key :: keys) (i + 1)).length =
      (upToClosing keys i).length + ((writeKey key).length + 1) := by
  simp only [upToClosing, List.length_append, length_upToOpening_succ, List.getD_cons_succ]
  omega

theorem length_upToClosing_zero (key : String) (keys : List String) :
    (upToClosing (key :: keys) 0).length = (writeKey key).length + 1 := by
  simp [upToClosing, upToOpening, writeKey]

theorem length_upToClosing_pos (keys : List String) (i : Nat) :
    0 < (upToClosing keys i).length := by
  simp [upToClosing, upToOpening]

/-- The quotes of a key are where they are said to be. -/
theorem upToClosing_prefix {keys : List String} {i : Nat} (hi : i < keys.length) :
    upToClosing keys i <+: (write keys).toList := by
  rw [toList_write]
  induction keys generalizing i with
  | nil => simp at hi
  | cons key rest ih =>
    cases i with
    | zero =>
      simp [upToClosing, upToOpening, items_cons, writeKey]
    | succ i =>
      have hrest : i < rest.length := Nat.lt_of_succ_lt_succ hi
      obtain ⟨next, more, rfl⟩ := List.exists_cons_of_length_pos (Nat.zero_lt_of_lt hrest)
      obtain ⟨text, htext, hnext⟩ := upToOpening_succ key (next :: more) i
      have := ih hrest
      rw [upToClosing, htext, List.cons_append, List.cons_prefix_cons] at this
      rw [upToClosing, hnext, items_cons, behind, List.getD_cons_succ]
      simpa using this.2

theorem closedIn_nil (n : Nat) : closedIn [] n = 0 := rfl

/-- No other key is closed before the first one is. -/
theorem closedIn_cons (key : String) (keys : List String) (n : Nat) :
    closedIn (key :: keys) n =
      if (writeKey key).length + 1 ≤ n then closedIn keys (n - ((writeKey key).length + 1)) + 1
      else 0 := by
  have hsucc : ∀ i, (upToClosing (key :: keys) (i + 1)).length ≤ n ↔
      (writeKey key).length + 1 ≤ n ∧
        (upToClosing keys i).length ≤ n - ((writeKey key).length + 1) := by
    intro i
    have := length_upToClosing_pos keys i
    rw [length_upToClosing_succ]
    omega
  rw [closedIn, List.length_cons, List.range_succ_eq_map, List.countP_cons, List.countP_map,
    length_upToClosing_zero]
  simp only [Function.comp_def, hsucc]
  by_cases hfirst : (writeKey key).length + 1 ≤ n
  · simp [hfirst, closedIn]
  · simp [hfirst]

theorem not_inString_nil (n : Nat) : ¬ InString [] n := by
  rintro ⟨i, hi, -⟩
  exact absurd hi (Nat.not_lt_zero i)

/-- A cut is inside the first string or, behind it, where it is inside one of the others. -/
theorem inString_cons (key : String) (keys : List String) (n : Nat) :
    InString (key :: keys) n ↔
      if (writeKey key).length + 1 ≤ n then InString keys (n - ((writeKey key).length + 1))
      else 2 ≤ n := by
  constructor
  · rintro ⟨i, hi, hopen, hclose⟩
    cases i with
    | zero =>
      rw [length_upToClosing_zero] at hclose
      rw [if_neg (by omega)]
      exact hopen
    | succ i =>
      rw [length_upToOpening_succ] at hopen
      rw [length_upToClosing_succ] at hclose
      rw [if_pos (by omega)]
      exact ⟨i, Nat.lt_of_succ_lt_succ hi, by omega, by omega⟩
  · split
    · rintro ⟨i, hi, hopen, hclose⟩
      refine ⟨i + 1, Nat.succ_lt_succ hi, ?_, ?_⟩
      · rw [length_upToOpening_succ]
        omega
      · rw [length_upToClosing_succ]
        omega
    · rename_i hfirst
      refine fun hopen => ⟨0, Nat.succ_pos _, hopen, ?_⟩
      rw [length_upToClosing_zero]
      omega

theorem closedIn_zero (keys : List String) : closedIn keys 0 = 0 := by
  refine List.countP_eq_zero.mpr fun i _ => ?_
  have := length_upToClosing_pos keys i
  simp only [decide_eq_true_eq]
  omega

theorem not_inString_zero (keys : List String) : ¬ InString keys 0 := by
  rintro ⟨i, -, hopen, -⟩
  simp [upToOpening] at hopen

/-! ## Reading what is left of a list -/

theorem Leaves.cons {keys : List String} {j : Nat} {text : List Char} {last : String}
    (h : Leaves keys j ('[' :: text) last) (key : String) :
    Leaves (key :: keys) (j + 1) ('[' :: (writeKey key ++ ',' :: text)) last := by
  obtain ⟨hkey, hchars, hbegins, hcut⟩ := h
  obtain ⟨opening, hopening, hnext⟩ := upToOpening_succ key keys j
  rw [hopening, List.cons_append, List.cons.injEq] at hcut
  refine .mk (by simpa using hkey) hchars hbegins ?_
  rw [hnext, hcut.2]
  simp

/-- A string that is whole is read as its key. -/
theorem readItem?_writeKey (key : String) {c : Char} (hc : isBlank c = false) (rest : List Char) :
    readItem? (writeKey key ++ c :: rest) = some (key, if c = ',' then some rest else none) :=
  readItem?_itemOf (fun _ _ => readBody_body)
    ((item_writeKey key).itemOf fun _ _ hbody => hbody) hc rest

theorem readItem?_writeKey_nil (key : String) : readItem? (writeKey key) = some (key, none) := by
  have htext : (writeKey key).dropWhile isBlank =
      '\x22' :: (key.toList.flatMap writeChar ++ '\x22' :: []) := by
    rw [writeKey, List.dropWhile_cons_of_neg (by decide)]
  rw [readItem?, htext]
  simp only [readBody_body (body_write key.toList), String.ofList_toList, Option.bind_some,
    List.dropWhile_nil]

theorem readItems_writeKey {key : String} {rest : List Char} (h : rest = [] ∨ rest = [']']) :
    readItems (writeKey key ++ rest) = [key] := by
  obtain rfl | rfl := h
  · rw [List.append_nil, readItems_eq, readItem?_writeKey_nil]
  · rw [readItems_eq, readItem?_writeKey key (by decide), if_neg (by decide)]

theorem readItems_writeKey_comma (key : String) (rest : List Char) :
    readItems (writeKey key ++ ',' :: rest) = key :: readItems rest := by
  rw [readItems_eq, readItem?_writeKey key (by decide), if_pos rfl]

/-- A string without its closing quote is the last one that is read. -/
theorem readItems_open (key : String) (keys : List String) {n : Nat} (hpos : 0 < n)
    (hn : n < (writeKey key).length) :
    ∃ last, Leaves (key :: keys) 0 ('[' :: (writeKey key).take n) last ∧
      readItems ((writeKey key).take n) = [last] := by
  obtain ⟨n, rfl⟩ := Nat.exists_eq_succ_of_ne_zero hpos.ne'
  have hinside : n ≤ (key.toList.flatMap writeChar).length := by
    simp only [writeKey, List.length_cons, List.length_append, List.length_nil] at hn
    omega
  have htext : (writeKey key).take (n + 1) =
      '\x22' :: (key.toList.flatMap writeChar).take n := by
    rw [writeKey, List.take_succ_cons, List.take_append_of_le_length hinside]
  obtain ⟨seen, unseen, part, hchars, hbegins, hcut, hread⟩ := readBody_take hinside
  refine ⟨_, .mk rfl hchars hbegins ?_, ?_⟩
  · rw [htext, hcut]
    rfl
  · have hitem : readItem? ((writeKey key).take (n + 1)) =
        some (String.ofList (seen ++ remnant part), none) := by
      rw [htext, readItem?, List.dropWhile_cons_of_neg (by decide)]
      simp only [hread, Option.bind_none]
    rw [readItems_eq, hitem]

/-- By induction on the keys; each one that is whole takes its text off the cut. -/
theorem readItems_take (keys : List String) (n : Nat) :
    (¬ InString keys (n + 1) →
      readItems ((items keys).take n) = keys.take (closedIn keys (n + 1))) ∧
    (InString keys (n + 1) →
      ∃ last, Leaves keys (closedIn keys (n + 1)) ('[' :: (items keys).take n) last ∧
        readItems ((items keys).take n) = keys.take (closedIn keys (n + 1)) ++ [last]) := by
  induction keys generalizing n with
  | nil =>
    refine ⟨fun _ => ?_, fun h => absurd h (not_inString_nil _)⟩
    have hnone : readItem? ((items []).take n) = none := by
      cases n with
      | zero => rfl
      | succ n => rw [show items [] = [']'] from rfl, List.take_succ_cons, List.take_nil]; rfl
    rw [readItems_eq, hnone, closedIn_nil, List.take_zero]
  | cons key rest ih =>
    rw [closedIn_cons, inString_cons]
    by_cases hfirst : n < (writeKey key).length
    · rw [if_neg (by omega), if_neg (by omega)]
      rw [items_cons, List.take_append_of_le_length hfirst.le]
      constructor
      · intro hout
        obtain rfl : n = 0 := by omega
        rw [List.take_zero, readItems_eq]
        rfl
      · exact fun hin => readItems_open key rest (by omega) hfirst
    · -- the first string is whole, and the cut is `m` characters behind it
      obtain ⟨m, rfl⟩ := Nat.exists_eq_add_of_le (Nat.le_of_not_lt hfirst)
      rw [if_pos (by omega), if_pos (by omega), items_cons, List.take_length_add_append,
        show (writeKey key).length + m + 1 - ((writeKey key).length + 1) = m by omega]
      match rest, m with
      | rest, 0 =>
        refine ⟨fun _ => ?_, fun h => absurd h (not_inString_zero rest)⟩
        rw [List.take_zero, readItems_writeKey (.inl rfl), closedIn_zero]
        rfl
      | [], m + 1 =>
        refine ⟨fun _ => ?_, fun h => absurd h (not_inString_nil _)⟩
        rw [behind, List.take_succ_cons, List.take_nil, readItems_writeKey (.inr rfl), closedIn_nil]
        rfl
      | next :: more, m + 1 =>
        obtain ⟨hout, hin⟩ := ih m
        rw [behind, List.take_succ_cons, readItems_writeKey_comma]
        refine ⟨fun h => ?_, fun h => ?_⟩
        · rw [hout h]
          rfl
        · obtain ⟨last, hleaves, hlast⟩ := hin h
          refine ⟨last, hleaves.cons key, ?_⟩
          rw [hlast]
          rfl

/-- The keys whose closing quote is not cut off are read as they are. Exactly if the cut falls
between the quotes of the next one, what is there of its characters is one more; where it falls
behind the `\u` of an escape, a replacement character stands for that and the digits that are left
for themselves. -/
theorem read_cut (keys : List String) (n : Nat) :
    (¬ InString keys n →
      read (String.ofList ((write keys).toList.take n)) = keys.take (closedIn keys n)) ∧
    (InString keys n →
      ∃ last, Leaves keys (closedIn keys n) ((write keys).toList.take n) last ∧
        read (String.ofList ((write keys).toList.take n)) =
          keys.take (closedIn keys n) ++ [last]) := by
  rw [toList_write]
  cases n with
  | zero =>
    refine ⟨fun _ => ?_, fun h => absurd h (not_inString_zero keys)⟩
    rw [closedIn_zero]
    rfl
  | succ n =>
    have hread : read (String.ofList (('[' :: items keys).take (n + 1))) =
        readItems ((items keys).take n) := by
      rw [List.take_succ_cons, read, String.toList_ofList,
        List.dropWhile_cons_of_neg (by decide)]
      rfl
    rw [hread, List.take_succ_cons]
    exact readItems_take keys n

theorem read_cut_unit :
    let cut := fun n => String.ofList ((write ["a", "\x01"]).toList.take n)
    (¬ InString ["a", "\x01"] 4 ∧ cut 4 = "[\x22a\x22" ∧ read (cut 4) = ["a"]) ∧
      InString ["a", "\x01"] 10 ∧ cut 10 = "[\x22a\x22,\x22\\u00" ∧
      ∃ last, Leaves ["a", "\x01"] 1 (cut 10).toList last ∧ read (cut 10) = ["a"] ++ [last] := by
  have hout : ¬ InString ["a", "\x01"] 4 := by decide
  have hin : InString ["a", "\x01"] 10 := by decide
  refine ⟨⟨hout, rfl, (read_cut ["a", "\x01"] 4).1 hout⟩, hin, rfl, ?_⟩
  obtain ⟨last, hleaves, hread⟩ := (read_cut ["a", "\x01"] 10).2 hin
  exact ⟨last, hleaves, hread⟩

end Enclave.Text.KeyList
