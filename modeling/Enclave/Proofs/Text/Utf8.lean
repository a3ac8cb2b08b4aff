import Enclave.Proofs.Text.Bytes

/-! # The bytes of texts are UTF-8

Texts are written as the standard bytes, and the strict reader finds a text only in bytes that were
written so. Bytes begin with those of a character, or else their reading begins with a gap; the
bounds after a leading byte are what keeps other spellings of a character out.
-/
namespace Enclave.Text

/-! ## Written as the standard has it -/

theorem encodeChar_eq (c : Char) : encodeChar c = String.utf8EncodeChar c := by
  have hc := toNat_char c
  simp only [encodeChar, String.utf8EncodeChar, byte, Char.toNat_val]
  by_cases hone : c.toNat < 0x80
  · rw [if_pos hone, if_pos (by omega)]
  by_cases htwo : c.toNat < 0x800
  · rw [if_neg hone, if_pos htwo, if_neg (by omega), if_pos (by omega),
      Nat.mod_eq_of_lt (show c.toNat / 64 < 0x20 by omega)]
    simp only [Nat.add_comm]
  by_cases hthree : c.toNat < 0x10000
  · rw [if_neg hone, if_neg htwo, if_pos hthree, if_neg (by omega), if_neg (by omega),
      if_pos (by omega), Nat.mod_eq_of_lt (show c.toNat / 4096 < 0x10 by omega)]
    simp only [Nat.add_comm]
  · rw [if_neg hone, if_neg htwo, if_neg hthree, if_neg (by omega), if_neg (by omega),
      if_neg (by omega), Nat.mod_eq_of_lt (show c.toNat / 262144 < 0x08 by omega)]
    simp only [Nat.add_comm]

theorem toByteArray_encode (s : String) : (encode s).toByteArray = s.toUTF8 := by
  have hchar : encodeChar = String.utf8EncodeChar := funext encodeChar_eq
  rw [String.toUTF8_eq_toByteArray, ← String.utf8Encode_toList, List.utf8Encode, encode, hchar]

/-! ## Bytes that are those of a character

What the automaton has put together from the bytes within its bounds is the code of a character, and
that character is written with these bytes.
-/

theorem toNat_ofNat {n : Nat} (h : n < 0xD800 ∨ 0xDFFF < n ∧ n < 0x110000) :
    (Char.ofNat n).toNat = n := by
  rw [Char.ofNat, dif_pos h]
  rfl

theorem encodeChar_one {a : Nat} (ha : a < 0x80) : encodeChar (Char.ofNat a) = [byte a] := by
  simp [encodeChar, toNat_ofNat (show a < 0xD800 ∨ _ by omega), ha]

theorem encodeChar_two {a b : Nat} (ha : 0xC2 ≤ a) (ha' : a < 0xE0) (hb : 0x80 ≤ b)
    (hb' : b ≤ 0xBF) :
    encodeChar (Char.ofNat ((a - 0xC0) * 64 + (b - 0x80))) = [byte a, byte b] := by
  generalize hn : (a - 0xC0) * 64 + (b - 0x80) = n
  have hfirst : 0xC0 + n / 64 = a := by omega
  have hlast : 0x80 + n % 64 = b := by omega
  rw [encodeChar, toNat_ofNat (by omega), if_neg (by omega), if_pos (by omega), hfirst, hlast]

theorem encodeChar_three {a b c : Nat} (ha : 0xE0 ≤ a) (ha' : a < 0xF0)
    (hb : (if a = 0xE0 then 0xA0 else 0x80) ≤ b) (hb' : b ≤ if a = 0xED then 0x9F else 0xBF)
    (hc : 0x80 ≤ c) (hc' : c ≤ 0xBF) :
    encodeChar (Char.ofNat (((a - 0xE0) * 64 + (b - 0x80)) * 64 + (c - 0x80))) =
      [byte a, byte b, byte c] := by
  generalize hn : ((a - 0xE0) * 64 + (b - 0x80)) * 64 + (c - 0x80) = n
  have hlow : 0x80 ≤ b ∧ (a = 0xE0 → 0xA0 ≤ b) := by split at hb <;> omega
  have hhigh : b ≤ 0xBF ∧ (a = 0xED → b ≤ 0x9F) := by split at hb' <;> omega
  have hfirst : 0xE0 + n / 4096 = a := by omega
  have hsecond : 0x80 + n / 64 % 64 = b := by omega
  have hlast : 0x80 + n % 64 = c := by omega
  rw [encodeChar, toNat_ofNat (by omega), if_neg (by omega), if_neg (by omega), if_pos (by omega),
    hfirst, hsecond, hlast]

theorem encodeChar_four {a b c d : Nat} (ha : 0xF0 ≤ a) (ha' : a < 0xF5)
    (hb : (if a = 0xF0 then 0x90 else 0x80) ≤ b) (hb' : b ≤ if a = 0xF4 then 0x8F else 0xBF)
    (hc : 0x80 ≤ c) (hc' : c ≤ 0xBF) (hd : 0x80 ≤ d) (hd' : d ≤ 0xBF) :
    encodeChar (Char.ofNat
        ((((a - 0xF0) * 64 + (b - 0x80)) * 64 + (c - 0x80)) * 64 + (d - 0x80))) =
      [byte a, byte b, byte c, byte d] := by
  generalize hn : (((a - 0xF0) * 64 + (b - 0x80)) * 64 + (c - 0x80)) * 64 + (d - 0x80) = n
  have hlow : 0x80 ≤ b ∧ (a = 0xF0 → 0x90 ≤ b) := by split at hb <;> omega
  have hhigh : b ≤ 0xBF ∧ (a = 0xF4 → b ≤ 0x8F) := by split at hb' <;> omega
  have hfirst : 0xF0 + n / 262144 = a := by omega
  have hsecond : 0x80 + n / 4096 % 64 = b := by omega
  have hthird : 0x80 + n / 64 % 64 = c := by omega
  have hlast : 0x80 + n % 64 = d := by omega
  rw [encodeChar, toNat_ofNat (by omega), if_neg (by omega), if_neg (by omega), if_neg (by omega),
    hfirst, hsecond, hthird, hlast]

/-! ## Where a reading begins -/

/-- A character under way goes on with a byte within the bounds, or there is a gap. -/
theorem scan_next (p : Pending) (bytes : Bytes) :
    (∃ n rest, bytes = byte n :: rest ∧ n < 256 ∧ p.low ≤ n ∧ n ≤ p.high) ∨
      ∃ tail, scan (some p) bytes = none :: tail := by
  cases bytes with
  | nil => exact .inr ⟨[], rfl⟩
  | cons b rest =>
    by_cases hb : p.low ≤ b.toNat ∧ b.toNat ≤ p.high
    · exact .inl ⟨b.toNat, rest, by simp [byte], b.toNat_lt, hb⟩
    · right
      simp [scan, advance, hb]

/-- Bytes begin with those of a character, or their reading begins with a gap. -/
def Begins (bytes : Bytes) : Prop :=
  (∃ c rest, bytes = encodeChar c ++ rest) ∨ ∃ tail, scan none bytes = none :: tail

theorem begins_one {a : Nat} (ha : a < 0x80) (rest : Bytes) : Begins (byte a :: rest) :=
  .inl ⟨Char.ofNat a, rest, by rw [encodeChar_one ha, List.singleton_append]⟩

theorem begins_two {a : Nat} (ha : 0xC2 ≤ a) (ha' : a < 0xE0) (rest : Bytes) :
    Begins (byte a :: rest) := by
  unfold Begins
  rw [scan_two ha ha']
  obtain ⟨b, rest, rfl, -, hb, hb'⟩ | hgap := scan_next ⟨1, a - 0xC0, 0x80, 0xBF⟩ rest
  · exact .inl ⟨_, rest, by rw [encodeChar_two ha ha' hb hb']; rfl⟩
  · exact .inr hgap

theorem begins_three {a : Nat} (ha : 0xE0 ≤ a) (ha' : a < 0xF0) (rest : Bytes) :
    Begins (byte a :: rest) := by
  unfold Begins
  rw [scan_three ha ha']
  obtain ⟨b, rest, rfl, hlt, hb, hb'⟩ | hgap := scan_next ⟨2, a - 0xE0,
    if a = 0xE0 then 0xA0 else 0x80, if a = 0xED then 0x9F else 0xBF⟩ rest
  · rw [scan_inner hlt hb hb' (by simp)]
    obtain ⟨c, rest, rfl, -, hc, hc'⟩ | hgap :=
      scan_next ⟨1, (a - 0xE0) * 64 + (b - 0x80), 0x80, 0xBF⟩ rest
    · exact .inl ⟨_, rest, by rw [encodeChar_three ha ha' hb hb' hc hc']; rfl⟩
    · exact .inr hgap
  · exact .inr hgap

theorem begins_four {a : Nat} (ha : 0xF0 ≤ a) (ha' : a < 0xF5) (rest : Bytes) :
    Begins (byte a :: rest) := by
  unfold Begins
  rw [scan_four ha ha']
  obtain ⟨b, rest, rfl, hlt, hb, hb'⟩ | hgap := scan_next ⟨3, a - 0xF0,
    if a = 0xF0 then 0x90 else 0x80, if a = 0xF4 then 0x8F else 0xBF⟩ rest
  · rw [scan_inner hlt hb hb' (by simp)]
    dsimp only [Nat.reduceSub]
    obtain ⟨c, rest, rfl, hlt, hc, hc'⟩ | hgap :=
      scan_next ⟨2, (a - 0xF0) * 64 + (b - 0x80), 0x80, 0xBF⟩ rest
    · rw [scan_inner hlt hc hc' (by simp)]
      obtain ⟨d, rest, rfl, -, hd, hd'⟩ | hgap := scan_next
        ⟨1, ((a - 0xF0) * 64 + (b - 0x80)) * 64 + (c - 0x80), 0x80, 0xBF⟩ rest
      · exact .inl ⟨_, rest, by rw [encodeChar_four ha ha' hb hb' hc hc' hd hd']; rfl⟩
      · exact .inr hgap
    · exact .inr hgap
  · exact .inr hgap

/-- A byte that leads nothing is a gap by itself. -/
theorem begins_gap {a : Nat} (hlt : a < 256) (ha : 0x80 ≤ a) (ha' : a < 0xC2 ∨ 0xF5 ≤ a)
    (rest : Bytes) : Begins (byte a :: rest) := by
  have hlead : lead a = ([none], none) := by
    unfold lead
    rw [if_neg (by omega)]
    split
    · rfl
    · rw [if_neg (by omega), if_neg (by omega), if_neg (by omega)]
  refine .inr ⟨scan none rest, ?_⟩
  rw [scan, toNat_byte hlt, advance, hlead]
  rfl

theorem begins (b : UInt8) (rest : Bytes) : Begins (b :: rest) := by
  have hlt := b.toNat_lt
  have hb : byte b.toNat = b := by simp [byte]
  rw [← hb]
  by_cases hone : b.toNat < 0x80
  · exact begins_one hone rest
  by_cases hgap : b.toNat < 0xC2 ∨ 0xF5 ≤ b.toNat
  · exact begins_gap hlt (by omega) hgap rest
  by_cases htwo : b.toNat < 0xE0
  · exact begins_two (by omega) htwo rest
  by_cases hthree : b.toNat < 0xF0
  · exact begins_three (by omega) hthree rest
  · exact begins_four (by omega) (by omega) rest

/-! ## The strict reader is exact -/

theorem scan_eq_nil {bytes : Bytes} (h : scan none bytes = []) : bytes = [] := by
  cases bytes with
  | nil => rfl
  | cons b rest =>
    obtain ⟨c, more, hbytes⟩ | ⟨tail, hgap⟩ := begins b rest
    · rw [hbytes, scan_encodeChar] at h
      cases h
    · rw [hgap] at h
      cases h

theorem scan_eq_cons {bytes : Bytes} {c : Char} {items : List (Option Char)}
    (h : scan none bytes = some c :: items) :
    ∃ rest, bytes = encodeChar c ++ rest ∧ scan none rest = items := by
  cases bytes with
  | nil => cases h
  | cons b rest =>
    obtain ⟨c', more, hbytes⟩ | ⟨tail, hgap⟩ := begins b rest
    · rw [hbytes, scan_encodeChar] at h
      obtain ⟨hc, hmore⟩ := List.cons.inj h
      exact ⟨more, by rw [hbytes, Option.some.inj hc], hmore⟩
    · rw [hgap] at h
      cases h

/-- Bytes that are read without a gap are those of the characters that are read. -/
theorem eq_flatMap_of_scan {chars : List Char} {bytes : Bytes}
    (h : scan none bytes = chars.map some) : bytes = chars.flatMap encodeChar := by
  induction chars generalizing bytes with
  | nil => exact scan_eq_nil h
  | cons c chars ih =>
    obtain ⟨rest, rfl, hrest⟩ := scan_eq_cons h
    rw [List.flatMap_cons, ← ih hrest]

theorem eq_map_of_mapM {items : List (Option Char)} {chars : List Char}
    (h : items.mapM id = some chars) : items = chars.map some := by
  induction items generalizing chars with
  | nil =>
    cases h
    rfl
  | cons item rest ih =>
    rw [List.mapM_cons] at h
    obtain ⟨c, rfl, hrest⟩ := Option.bind_eq_some_iff.mp h
    obtain ⟨cs, hcs, hchars⟩ := Option.bind_eq_some_iff.mp hrest
    cases hchars
    rw [ih hcs, List.map_cons]

/-- The strict reader finds a text only in the bytes of that text. -/
theorem decode?_eq_some_iff {bytes : Bytes} {s : String} :
    decode? bytes = some s ↔ bytes = encode s := by
  constructor
  · intro h
    obtain ⟨chars, hchars, rfl⟩ := Option.map_eq_some_iff.mp h
    rw [encode, String.toList_ofList]
    exact eq_flatMap_of_scan (eq_map_of_mapM hchars)
  · rintro rfl
    exact decode?_encode s

theorem fromUTF8?_eq_some_iff {bytes : ByteArray} {s : String} :
    String.fromUTF8? bytes = some s ↔ bytes = s.toUTF8 := by
  unfold String.fromUTF8?
  split
  · rename_i hvalid
    rw [Option.some.injEq, ← String.toByteArray_inj]
    rfl
  · rename_i hvalid
    refine iff_of_false (by simp) ?_
    rintro rfl
    exact hvalid s.isValidUTF8

/-- The strict reader takes and refuses what the standard reader does. -/
theorem decode?_eq_fromUTF8? (bytes : Bytes) :
    decode? bytes = String.fromUTF8? bytes.toByteArray := by
  refine Option.ext fun s => ?_
  rw [decode?_eq_some_iff, fromUTF8?_eq_some_iff, ← toByteArray_encode, List.toByteArray_inj]

end Enclave.Text
