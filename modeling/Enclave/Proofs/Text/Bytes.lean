import Mathlib.Data.List.TakeWhile
import Enclave.Host.Conversion

/-! # Text survives its bytes

What was written as bytes is read back as it was, strictly or not. Of text that crosses the boundary
the other side sees what stands before the first zero character, and text without one is seen whole.
-/
namespace Enclave.Text

/-! ## One character -/

theorem toNat_byte {n : Nat} (h : n < 256) : (byte n).toNat = n := by
  simp [byte, Nat.mod_eq_of_lt h]

/-- Codes of characters stay clear of surrogates and end in time. -/
theorem toNat_char (c : Char) : c.toNat < 0xD800 ∨ 0xDFFF < c.toNat ∧ c.toNat < 0x110000 :=
  c.valid

/-- A byte within the bounds of the next one goes on with the character under way. -/
theorem scan_inner {p : Pending} {n : Nat} (hn : n < 256) (hlow : p.low ≤ n) (hhigh : n ≤ p.high)
    (hneed : p.need ≠ 1) (rest : Bytes) :
    scan (some p) (byte n :: rest) =
      scan (some ⟨p.need - 1, p.code * 64 + (n - 0x80), 0x80, 0xBF⟩) rest := by
  simp [scan, toNat_byte hn, advance, hlow, hhigh, hneed]

/-- The last byte of a character yields it. -/
theorem scan_last {p : Pending} {n : Nat} (hn : n < 256) (hlow : p.low ≤ n) (hhigh : n ≤ p.high)
    (hneed : p.need = 1) (rest : Bytes) :
    scan (some p) (byte n :: rest) =
      some (Char.ofNat (p.code * 64 + (n - 0x80))) :: scan none rest := by
  simp [scan, toNat_byte hn, advance, hlow, hhigh, hneed]

/-! Leading bytes, by how many bytes the character has. -/

theorem scan_one {n : Nat} (h : n < 0x80) (rest : Bytes) :
    scan none (byte n :: rest) = some (Char.ofNat n) :: scan none rest := by
  simp [scan, toNat_byte (show n < 256 by omega), advance, lead, h]

theorem scan_two {n : Nat} (h : 0xC2 ≤ n) (h' : n < 0xE0) (rest : Bytes) :
    scan none (byte n :: rest) = scan (some ⟨1, n - 0xC0, 0x80, 0xBF⟩) rest := by
  simp [scan, toNat_byte (show n < 256 by omega), advance, lead, h', show ¬ n < 0x80 by omega,
    show ¬ n < 0xC2 by omega]

theorem scan_three {n : Nat} (h : 0xE0 ≤ n) (h' : n < 0xF0) (rest : Bytes) :
    scan none (byte n :: rest) = scan (some ⟨2, n - 0xE0, if n = 0xE0 then 0xA0 else 0x80,
      if n = 0xED then 0x9F else 0xBF⟩) rest := by
  simp [scan, toNat_byte (show n < 256 by omega), advance, lead, h', show ¬ n < 0x80 by omega,
    show ¬ n < 0xC2 by omega, show ¬ n < 0xE0 by omega]

theorem scan_four {n : Nat} (h : 0xF0 ≤ n) (h' : n < 0xF5) (rest : Bytes) :
    scan none (byte n :: rest) = scan (some ⟨3, n - 0xF0, if n = 0xF0 then 0x90 else 0x80,
      if n = 0xF4 then 0x8F else 0xBF⟩) rest := by
  simp [scan, toNat_byte (show n < 256 by omega), advance, lead, h', show ¬ n < 0x80 by omega,
    show ¬ n < 0xC2 by omega, show ¬ n < 0xE0 by omega, show ¬ n < 0xF0 by omega]

/-- The bytes of a character are read as that character. The bounds after a leading byte hold
because no character is a surrogate and none is written longer than it has to be. -/
theorem scan_encodeChar (c : Char) (rest : Bytes) :
    scan none (encodeChar c ++ rest) = some c :: scan none rest := by
  have hc := toNat_char c
  have hback : ∀ n, n = c.toNat → Char.ofNat n = c := fun n hn => hn ▸ Char.ofNat_toNat c
  unfold encodeChar
  dsimp only
  split
  · rename_i h
    rw [List.singleton_append, scan_one h, hback _ rfl]
  · split
    · rw [List.cons_append, scan_two (by omega) (by omega)]
      rw [List.singleton_append, scan_last (by omega) (by dsimp only; omega)
        (by dsimp only; omega) rfl, hback _ (by dsimp only; omega)]
    · split
      · rw [List.cons_append, scan_three (by omega) (by omega)]
        rw [List.cons_append, scan_inner (by omega) (by dsimp only; split <;> omega)
          (by dsimp only; split <;> omega) (by simp)]
        rw [List.singleton_append, scan_last (by omega) (by dsimp only; omega)
          (by dsimp only; omega) rfl, hback _ (by dsimp only; omega)]
      · rw [List.cons_append, scan_four (by omega) (by omega)]
        rw [List.cons_append, scan_inner (by omega) (by dsimp only; split <;> omega)
          (by dsimp only; split <;> omega) (by simp)]
        rw [List.cons_append, scan_inner (by omega) (by dsimp only; omega)
          (by dsimp only; omega) (by simp)]
        rw [List.singleton_append, scan_last (by omega) (by dsimp only; omega)
          (by dsimp only; omega) rfl, hback _ (by dsimp only; omega)]

/-- A byte of a character is zero only in the character zero. -/
theorem zero_mem_encodeChar {c : Char} : (0 : UInt8) ∈ encodeChar c ↔ c = '\x00' := by
  have hc := toNat_char c
  have hzero : ∀ n, n < 256 → ((0 : UInt8) = byte n ↔ n = 0) := fun n hn => by
    rw [← UInt8.toNat_inj, toNat_byte hn]
    simp [eq_comm]
  have hchar : c = '\x00' ↔ c.toNat = 0 := by
    rw [← Char.toNat_inj]
    rfl
  rw [hchar]
  unfold encodeChar
  dsimp only
  split
  · rename_i h
    rw [List.mem_singleton, hzero _ (by omega)]
  · split
    · simp only [List.mem_cons, List.not_mem_nil, or_false]
      rw [hzero _ (by omega), hzero _ (by omega)]
      omega
    · split
      · simp only [List.mem_cons, List.not_mem_nil, or_false]
        rw [hzero _ (by omega), hzero _ (by omega), hzero _ (by omega)]
        omega
      · simp only [List.mem_cons, List.not_mem_nil, or_false]
        rw [hzero _ (by omega), hzero _ (by omega), hzero _ (by omega), hzero _ (by omega)]
        omega

/-! ## Texts -/

theorem scan_encode (chars : List Char) : scan none (chars.flatMap encodeChar) = chars.map some := by
  induction chars with
  | nil => rfl
  | cons c rest ih => rw [List.flatMap_cons, scan_encodeChar, ih, List.map_cons]

@[simp]
theorem decodeLossy_encode (s : String) : decodeLossy (encode s) = s := by
  simp [decodeLossy, encode, scan_encode, Function.comp_def]

@[simp]
theorem decode?_encode (s : String) : decode? (encode s) = some s := by
  have hmap : ∀ chars : List Char, (chars.map some).mapM (id : Option Char → Option Char) =
      some chars := fun chars => by
    induction chars with
    | nil => rfl
    | cons c rest ih => simp [ih]
  simp [decode?, encode, scan_encode, hmap]

/-- Text up to its first zero character. -/
def cut (s : String) : String :=
  String.ofList (s.toList.takeWhile (· != '\x00'))

/-- Text without a zero character. -/
def IsPlain (s : String) : Prop :=
  '\x00' ∉ s.toList

instance (s : String) : Decidable (IsPlain s) :=
  inferInstanceAs (Decidable ('\x00' ∉ s.toList))

theorem untilZero_flatMap (chars : List Char) :
    untilZero (chars.flatMap encodeChar) =
      (chars.takeWhile (· != '\x00')).flatMap encodeChar := by
  induction chars with
  | nil => rfl
  | cons c rest ih =>
    rw [List.flatMap_cons, List.takeWhile_cons]
    by_cases hc : c = '\x00'
    · subst hc
      rfl
    · have hnone : ∀ b ∈ encodeChar c, (b != 0) = true := fun b hb => by
        rw [bne_iff_ne]
        rintro rfl
        exact hc (zero_mem_encodeChar.mp hb)
      rw [if_pos (bne_iff_ne.mpr hc), List.flatMap_cons, ← ih]
      exact List.takeWhile_append_of_pos hnone

/-- The other side sees what stands before the first zero character. -/
@[simp]
theorem untilZero_encode (s : String) : untilZero (encode s) = encode (cut s) := by
  simp only [encode, cut, String.toList_ofList]
  exact untilZero_flatMap s.toList

theorem cut_eq_self {s : String} (h : IsPlain s) : cut s = s := by
  have htake : s.toList.takeWhile (· != '\x00') = s.toList := by
    rw [List.takeWhile_eq_self_iff]
    intro c hc
    rw [bne_iff_ne]
    rintro rfl
    exact h hc
  rw [cut, htake, String.ofList_toList]

theorem isPlain_cut (s : String) : IsPlain (cut s) := by
  rw [IsPlain, cut, String.toList_ofList]
  intro hmem
  have := List.mem_takeWhile_imp hmem
  simp at this

@[simp]
theorem cut_cut (s : String) : cut (cut s) = cut s :=
  cut_eq_self (isPlain_cut s)

theorem zero_mem_encode {s : String} : (0 : UInt8) ∈ encode s ↔ ¬ IsPlain s := by
  simp only [encode, List.mem_flatMap, IsPlain, not_not]
  constructor
  · rintro ⟨c, hc, hb⟩
    exact zero_mem_encodeChar.mp hb ▸ hc
  · exact fun h => ⟨_, h, zero_mem_encodeChar.mpr rfl⟩

end Text

open Text

/-- Text is sent if it has no zero character, and is refused otherwise. -/
theorem sentText_eq (s : String) :
    sentText s = if IsPlain s then .ok (encode s) else .error (.interiorZero s) := by
  unfold sentText
  dsimp only
  by_cases h : IsPlain s
  · have : ¬ (0 : UInt8) ∈ encode s := fun hz => zero_mem_encode.mp hz h
    simp [h, this]
  · have : (0 : UInt8) ∈ encode s := zero_mem_encode.mpr h
    simp [h, this]

theorem sentText_plain {s : String} (h : IsPlain s) : sentText s = .ok (encode s) := by
  rw [sentText_eq, if_pos h]

/-- The runtime reads of a text that was written what stands before the first zero. -/
@[simp]
theorem readText_encode (s : String) : readText (encode s) = cut s := by
  simp [readText]

end Enclave
