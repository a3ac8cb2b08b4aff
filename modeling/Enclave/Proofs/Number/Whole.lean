import Enclave.Number.Reading
import Enclave.Number.Text
import Enclave.Proofs.Number.Mantissa

/-! # Whole numbers as doubles

An integer of at most `2 ^ 53` in size is a double. Its text is its decimal form, and this form is read as
the double again.
-/
namespace Enclave.Number

open Float.Model (UnpackedFloat Format totalExponent)
open Float.Model.UnpackedFloat

/-- The whole number that a double is; both zeros are zero. -/
def toInteger? (x : Float) : Option Int :=
  match Parts.ofFloat x with
  | .finite negative m q => (wholeOf? m q).map fun n : Nat => if negative then -(n : Int) else n
  | _ => none

section Whole

variable {n : Nat}

theorem fits_of_lt (hn : 0 < n) (h : n < 2 ^ 53) :
    Fits (n * 2 ^ (52 - n.log2)) ((n.log2 : Int) - 52) := by
  have hlog : n.log2 ≤ 52 := Nat.lt_succ_iff.mp ((Nat.log2_lt hn.ne').mpr h)
  have hlow := Nat.log2_self_le hn.ne'
  have hhigh := @Nat.lt_log2_self n
  have hpos := Nat.two_pow_pos (52 - n.log2)
  refine ⟨?_, ?_, by omega, by omega⟩
  · calc 2 ^ 52 = 2 ^ n.log2 * 2 ^ (52 - n.log2) := by rw [← pow_add, Nat.add_sub_cancel' hlog]
      _ ≤ n * 2 ^ (52 - n.log2) := Nat.mul_le_mul_right _ hlow
  · calc n * 2 ^ (52 - n.log2) < 2 ^ (n.log2 + 1) * 2 ^ (52 - n.log2) :=
          Nat.mul_lt_mul_of_pos_right hhigh hpos
      _ = 2 ^ 53 := by
          rw [← pow_add]
          congr 1
          omega

theorem unpack_toFloat (hn : 0 < n) (h : n < 2 ^ 53) :
    n.toUInt64.toFloat.toModel.unpack =
      .finite .positive (n * 2 ^ (52 - n.log2)) ((n.log2 : Int) - 52) (fits_of_lt hn h).pos := by
  have hnat : n.toUInt64.toNat = n := by
    simp
    omega
  have hcompare : compare (n : Int) 0 = .gt := Int.compare_eq_gt.mpr (by omega)
  have hlog : n.log2 ≤ 52 := Nat.lt_succ_iff.mp ((Nat.log2_lt hn.ne').mpr h)
  have htarget : Format.binary64.targetExponent (totalExponent n 0) = (n.log2 : Int) - 52 := by
    change max ((n.log2 : Int) + 1 + 0 - 53) (-1074) = _
    omega
  have hshift : ((0 : Int) - ((n.log2 : Int) - 52)).toNat = 52 - n.log2 := by omega
  have hround : UnpackedFloat.round Format.binary64 .positive n 0 =
      .finite .positive (n * 2 ^ (52 - n.log2)) ((n.log2 : Int) - 52) (fits_of_lt hn h).pos := by
    have hfits := (fits_of_lt hn h).roundWithAccuracy (s := .positive) 0
    simp only [Nat.pow_zero, Nat.mul_one, Int.natCast_zero, Int.sub_zero] at hfits
    simp only [UnpackedFloat.round, htarget, decreaseExponent, hshift, Nat.shiftLeft_eq]
    rw [← hfits]
    congr 1
    omega
  change (Float.Model.pack (ofNat Format.binary64 n.toUInt64.toNat)).unpack = _
  rw [hnat, ofNat, ofInt, UnpackedFloat.normalize, hcompare]
  change (Float.Model.pack (UnpackedFloat.round Format.binary64 .positive n 0)).unpack = _
  rw [hround, (fits_of_lt hn h).unpack_pack]

theorem unpack_ofWhole (hn : 0 < n) (h : n < 2 ^ 53) :
    (ofWhole n).toModel.unpack =
      .finite .positive (n * 2 ^ (52 - n.log2)) ((n.log2 : Int) - 52) (fits_of_lt hn h).pos := by
  have hone : (Float.ofBits 0x3FF0000000000000).toModel.unpack =
      .finite .positive (2 ^ 52) (-52) (by decide) := rfl
  have hexact : ofWhole n = n.toUInt64.toFloat * Float.ofBits 0x3FF0000000000000 :=
    dif_pos ⟨h, by decide⟩
  rw [hexact]
  change (Float.Model.pack (mul Format.binary64 n.toUInt64.toFloat.toModel.unpack
    (Float.ofBits 0x3FF0000000000000).toModel.unpack)).unpack = _
  rw [hone, unpack_toFloat hn h, mul]
  have hround := (fits_of_lt hn h).roundWithAccuracy (s := .positive) 52
  change (Float.Model.pack (roundWithAccuracy Format.binary64 .positive _
    ((n.log2 : Int) - 52 - (52 : Nat)) .exact)).unpack = _
  rw [hround, (fits_of_lt hn h).unpack_pack]

theorem wholeOf?_fits (hn : 0 < n) (h : n < 2 ^ 53) :
    wholeOf? (n * 2 ^ (52 - n.log2)) ((n.log2 : Int) - 52) = some n := by
  have hlog : n.log2 ≤ 52 := Nat.lt_succ_iff.mp ((Nat.log2_lt hn.ne').mpr h)
  rcases Nat.eq_or_lt_of_le hlog with h52 | hlt
  · rw [h52]
    simp [wholeOf?]
  · obtain ⟨k, hk⟩ := Nat.exists_eq_add_of_lt hlt
    have hexponent : (n.log2 : Int) - 52 = .negSucc k := by omega
    have hshift : 52 - n.log2 = k + 1 := by omega
    rw [hexponent, hshift]
    simp [wholeOf?, Nat.mul_mod_left]

theorem wholeOf?_zero (q : Int) : wholeOf? 0 q = some 0 := by
  cases q <;> simp [wholeOf?]

theorem wholeOf?_eq_zero_iff {m : Nat} {q : Int} (h : wholeOf? m q = some n) : n = 0 ↔ m = 0 := by
  cases q with
  | ofNat k =>
    cases h
    simp [Nat.pow_eq]
  | negSucc k =>
    simp only [wholeOf?, Nat.pow_eq] at h
    split at h
    · rename_i hmod
      cases h
      rw [Nat.div_eq_zero_iff_lt (Nat.two_pow_pos _)]
      constructor
      · intro hlt
        rwa [Nat.mod_eq_of_lt hlt] at hmod
      · rintro rfl
        exact Nat.two_pow_pos _
    · cases h

/-- A whole number up to `2 ^ 53` is a double, and so is its negative. -/
theorem exists_parts_ofWhole (h : n ≤ 2 ^ 53) :
    ∃ m e, Parts.ofFloat (ofWhole n) = .finite false m e ∧
      Parts.ofFloat (-ofWhole n) = .finite true m e ∧ wholeOf? m e = some n := by
  -- The arithmetic takes the number apart, and turns its sign.
  have hparts : ∀ {m e} (hf : Fits m e), (ofWhole n).toModel.unpack = .finite .positive m e hf.pos →
      Parts.ofFloat (ofWhole n) = .finite false m e ∧
        Parts.ofFloat (-ofWhole n) = .finite true m e := by
    intro m e hf hunpack
    have hneg : (-ofWhole n).toModel.unpack = .finite .negative m e hf.pos := by
      change (Float.Model.pack (ofWhole n).toModel.unpack.neg).unpack = _
      rw [hunpack]
      exact hf.unpack_pack
    rw [Parts.ofFloat_eq, Parts.ofFloat_eq, hunpack, hneg]
    exact ⟨rfl, rfl⟩
  rcases Nat.eq_zero_or_pos n with rfl | hn
  · exact ⟨0, -1074, by decide, by decide, wholeOf?_zero _⟩
  · rcases Nat.lt_or_eq_of_le h with hlt | rfl
    · obtain ⟨hplus, hminus⟩ := hparts (fits_of_lt hn hlt) (unpack_ofWhole hn hlt)
      exact ⟨_, _, hplus, hminus, wholeOf?_fits hn hlt⟩
    · have hfits : Fits (2 ^ 52) 1 := ⟨Nat.le_refl _, by decide, by decide, by decide⟩
      obtain ⟨hplus, hminus⟩ := hparts hfits rfl
      exact ⟨_, _, hplus, hminus, rfl⟩

/-- Every integer of that size is a double. -/
theorem toInteger?_ofInt {i : Int} (h : i.natAbs ≤ 2 ^ 53) : toInteger? (Float.ofInt i) = some i := by
  cases i with
  | ofNat n =>
    obtain ⟨m, e, hparts, -, hwhole⟩ := exists_parts_ofWhole (n := n) h
    change toInteger? (ofWhole n) = _
    simp only [toInteger?, hparts, hwhole]
    rfl
  | negSucc n =>
    obtain ⟨m, e, -, hparts, hwhole⟩ := exists_parts_ofWhole (n := n + 1) h
    change toInteger? (-ofWhole (n + 1)) = _
    simp only [toInteger?, hparts, hwhole]
    rfl

end Whole

/-! ## Their text -/

section Text

variable {x : Float} {i : Int} {n : Nat}

/-- A whole number that is not negative is one of its own. -/
theorem toWhole?_of_toInteger? (h : toInteger? x = some i) :
    toWhole? x = if 0 ≤ i then some i.toNat else none := by
  unfold toInteger? at h
  unfold toWhole?
  cases hparts : Parts.ofFloat x with
  | nan | infinite =>
    rw [hparts] at h
    cases h
  | finite negative m q =>
    rw [hparts] at h
    obtain ⟨n, hn, rfl⟩ := Option.map_eq_some_iff.mp h
    have hzero := wholeOf?_eq_zero_iff hn
    cases negative with
    | false => simp [hn]
    | true =>
      by_cases hm : m = 0
      · simp [hm, hzero.mpr hm, wholeOf?_zero]
      · have hpos : 0 < n := Nat.pos_of_ne_zero (mt hzero.mp hm)
        simp only [hm, ne_eq, not_false_eq_true, and_self, if_true]
        rw [if_neg (by omega)]

/-- The text of an integer is its decimal form, without a sign for zero. -/
theorem text_of_toInteger? (h : toInteger? x = some i) (hi : i.natAbs ≤ 2 ^ 53) :
    text x = toString i := by
  unfold toInteger? at h
  unfold text
  cases hparts : Parts.ofFloat x with
  | nan | infinite =>
    rw [hparts] at h
    cases h
  | finite negative m q =>
    rw [hparts] at h
    obtain ⟨n, hn, rfl⟩ := Option.map_eq_some_iff.mp h
    have hbound : n < Nat.pow 10 21 := by
      have hsize : n ≤ 2 ^ 53 := by cases negative <;> simpa using hi
      exact Nat.lt_of_le_of_lt hsize (by decide)
    simp only [hn, if_pos hbound]
    cases negative with
    | false => exact (Nat.repr_eq_ofList_toDigits (n := n)).symm
    | true =>
      cases n with
      | zero => rfl
      | succ k =>
        apply String.toList_injective
        change (String.ofList ('-' :: digitsOf (k + 1))).toList = ("-" ++ Nat.repr (k + 1)).toList
        rw [String.toList_ofList, String.toList_append, Nat.toList_repr]
        rfl

theorem isDigit_of_isDigit {c : Char} (h : c.isDigit = true) : isDigit c = true := by
  simpa [isDigit, Char.isDigit, Char.le_def] using h

theorem toLower_of_isDigit {c : Char} (h : c.isDigit = true) : c.toLower = c := by
  unfold Char.toLower
  rw [dif_neg]
  rintro ⟨hA, -⟩
  have h9 : c.val ≤ '9'.val := by
    simp only [Char.isDigit, Bool.and_eq_true, decide_eq_true_eq] at h
    exact h.2
  exact absurd (UInt32.le_trans hA h9) (by decide)

/-- Digits are no word, and they are read as the number that they spell. -/
theorem readDigits (n : Nat) :
    ((readWord? (digitsOf n)).or (readUnsigned? (digitsOf n))) = some (nearest n 0) := by
  have hdigits : ∀ c ∈ digitsOf n, c.isDigit = true := fun c hc =>
    Nat.isDigit_of_mem_toDigits (by decide) (by decide) hc
  have hne : digitsOf n ≠ [] := Nat.toDigits_ne_nil
  have hall : ∀ c ∈ digitsOf n, isDigit c = true := fun c hc => isDigit_of_isDigit (hdigits c hc)
  have hword : readWord? (digitsOf n) = none := by
    have hlower : (digitsOf n).map Char.toLower = digitsOf n :=
      (List.map_congr_left fun c hc => toLower_of_isDigit (hdigits c hc)).trans (List.map_id _)
    have hletter : ∀ w : String, (∃ c ∈ w.toList, c.isDigit = false) → digitsOf n ≠ w.toList := by
      rintro w ⟨c, hc, hfalse⟩ heq
      rw [← heq] at hc
      rw [hdigits c hc] at hfalse
      cases hfalse
    have hinf := hletter "inf" ⟨'i', by decide, by decide⟩
    have hinfinity := hletter "infinity" ⟨'i', by decide, by decide⟩
    have hnan := hletter "nan" ⟨'n', by decide, by decide⟩
    simp only [readWord?, hlower]
    rw [if_neg (by tauto), if_neg hnan]
  have htake : (digitsOf n).takeWhile isDigit = digitsOf n := List.takeWhile_eq_self_iff.mpr hall
  have hdrop : (digitsOf n).dropWhile isDigit = [] := List.dropWhile_eq_nil_iff.mpr hall
  have hvalue : digitsValue (digitsOf n) = n := by
    have h := Nat.ofDigitChars_ten_toDigits (n := n)
    rw [Nat.ofDigitChars_eq_foldl] at h
    exact h
  rw [hword, Option.none_or]
  simp [readUnsigned?, htake, hdrop, hne, readExponent?, hvalue]

theorem nearest_zero (h : n ≤ 2 ^ 53) : nearest n 0 = ofWhole n := by
  unfold nearest
  by_cases hn : n = 0
  · rw [if_pos hn, hn]
    rfl
  · have hlength : (Nat.toDigits 10 n).length ≤ 16 :=
      (Nat.length_toDigits_le_iff (by decide) (by decide)).mpr (Nat.lt_of_le_of_lt h (by decide))
    rw [if_neg hn, if_neg (by omega), if_neg (by omega)]
    rfl

/-- The decimal form of an integer is read as this integer. -/
theorem read?_toString (hi : i.natAbs ≤ 2 ^ 53) :
    read? (toString i).toList = some (Float.ofInt i) := by
  cases i with
  | ofNat n =>
    have hchars : (toString (Int.ofNat n)).toList = digitsOf n := Nat.toList_repr
    have hsign : splitSign (digitsOf n) = (false, digitsOf n) := by
      cases hd : digitsOf n with
      | nil => rfl
      | cons c rest =>
        have hc : c.isDigit = true :=
          Nat.isDigit_of_mem_toDigits (by decide) (by decide) (hd ▸ List.mem_cons_self)
        unfold splitSign
        split
        · rename_i heq
          cases heq
          cases hc
        · rename_i heq
          cases heq
          cases hc
        · rfl
    rw [hchars, read?, hsign]
    simp only [readDigits, nearest_zero (n := n) hi]
    rfl
  | negSucc k =>
    have hchars : (toString (Int.negSucc k)).toList = '-' :: digitsOf (k + 1) := by
      change ("-" ++ Nat.repr (k + 1)).toList = _
      rw [String.toList_append, Nat.toList_repr]
      rfl
    rw [hchars, read?, splitSign]
    simp only [readDigits, nearest_zero (n := k + 1) hi]
    rfl

end Text

end Enclave.Number
