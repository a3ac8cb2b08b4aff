import Mathlib
import Enclave.Number.Binary

/-! # Mantissas of 53 bits

The parts that number text is computed from are those that the arithmetic of doubles works with. A mantissa
that fills its 53 bits is packed and unpacked without loss, and rounding leaves it as it is.
-/
namespace Enclave.Number

open Float.Model (UnpackedFloat Format totalExponent)
open Float.Model.UnpackedFloat

/-! ## Parts -/

/-- The parts of a double that has been taken apart by its arithmetic. -/
def Parts.ofUnpacked : UnpackedFloat → Parts
  | .notANumber => nan
  | .infinity s => infinite (s == .negative)
  | .zero s => finite (s == .negative) 0 (-1074)
  | .finite s m e _ => finite (s == .negative) m e

section Bits

variable (b : BitVec Format.binary64.numBits)

theorem toNat_unpackMantissa : (unpackMantissa b).toNat = b.toNat % 2 ^ 52 := by
  simp [unpackMantissa]

theorem toNat_unpackExponent : (unpackExponent b).toNat = b.toNat / 2 ^ 52 % 2 ^ 11 := by
  simp [unpackExponent, Nat.shiftRight_eq_div_pow]

theorem negative_unpackSign :
    (Sign.ofBitVec (unpackSign b) == .negative) = (b.toNat / 2 ^ 63 % 2 == 1) := by
  have hb : (unpackSign b).toNat = b.toNat / 2 ^ 63 % 2 := by
    simp [unpackSign, Nat.shiftRight_eq_div_pow]
  rcases Nat.mod_two_eq_zero_or_one (b.toNat / 2 ^ 63) with h | h
  · have hs : unpackSign b = 0#1 := BitVec.eq_of_toNat_eq (hb.trans h)
    rw [hs, h]
    rfl
  · have hs : unpackSign b = 1#1 := BitVec.eq_of_toNat_eq (hb.trans h)
    rw [hs, h]
    rfl

/-- The implicit bit in front of the fraction. -/
theorem toNat_one_append (f : BitVec 52) : (1#1 ++ f).toNat = 2 ^ 52 + f.toNat := by
  rw [BitVec.toNat_append, ← Nat.shiftLeft_add_eq_or_of_lt f.isLt]
  rfl

/-- Both ways of taking bits apart come to the same. -/
theorem Parts.ofUnpacked_unpack :
    Parts.ofUnpacked (unpack Format.binary64 b) = Parts.ofBits b.toNat := by
  have hm := toNat_unpackMantissa b
  have he := toNat_unpackExponent b
  have hs := negative_unpackSign b
  have hmantissa : unpackMantissa b = 0#_ ↔ b.toNat % 2 ^ 52 = 0 := by
    rw [← BitVec.toNat_inj, hm]
    rfl
  have hexponent : ∀ n < 2 ^ 11, unpackExponent b = BitVec.ofNat _ n ↔
      b.toNat / 2 ^ 52 % 2 ^ 11 = n := by
    intro n hn
    rw [← BitVec.toNat_inj, he, BitVec.toNat_ofNat, Nat.mod_eq_of_lt hn]
  have hones : unpackExponent b = -1#_ ↔ b.toNat / 2 ^ 52 % 2 ^ 11 = 2047 := hexponent 2047 (by decide)
  have hzero : unpackExponent b = 0#_ ↔ b.toNat / 2 ^ 52 % 2 ^ 11 = 0 := hexponent 0 (by decide)
  simp only [unpack, Parts.ofBits, Nat.pow_eq, ← hs]
  by_cases h₁ : b.toNat / 2 ^ 52 % 2 ^ 11 = 2047
  · rw [if_pos (hones.mpr h₁), if_pos h₁]
    by_cases h₂ : b.toNat % 2 ^ 52 = 0
    · rw [if_pos (hmantissa.mpr h₂), if_pos h₂, ofUnpacked]
    · rw [if_neg (mt hmantissa.mp h₂), if_neg h₂, ofUnpacked]
  · rw [if_neg (mt hones.mp h₁), if_neg h₁]
    by_cases h₀ : b.toNat / 2 ^ 52 % 2 ^ 11 = 0
    · rw [if_pos (hzero.mpr h₀), if_pos h₀]
      by_cases h₂ : b.toNat % 2 ^ 52 = 0
      · rw [dif_pos (hmantissa.mpr h₂), ofUnpacked, h₂]
      · rw [dif_neg (mt hmantissa.mp h₂), ofUnpacked, hm, he, h₀]
        rfl
    · rw [if_neg (mt hzero.mp h₀), if_neg h₀, ofUnpacked, toNat_one_append, hm, he]
      rfl

end Bits

theorem Parts.ofFloat_eq (x : Float) : Parts.ofFloat x = Parts.ofUnpacked x.toModel.unpack :=
  (Parts.ofUnpacked_unpack x.toModel.toBits.toBitVec).symm

/-! ## Mantissas of 53 bits -/

/-- The mantissa fills its 53 bits, and the exponent fits. -/
def Fits (m : Nat) (e : Int) : Prop :=
  2 ^ 52 ≤ m ∧ m < 2 ^ 53 ∧ -1074 ≤ e ∧ e ≤ 971

section Fits

variable {s : Sign} {m k : Nat} {e : Int}

theorem Fits.pos (h : Fits m e) : 0 < m :=
  Nat.lt_of_lt_of_le (by decide) h.1

theorem Fits.log2_eq (h : Fits m e) : m.log2 = 52 :=
  (Nat.log2_eq_iff h.pos.ne').mpr ⟨h.1, h.2.1⟩

/-- A number of full precision is packed and unpacked without loss. -/
theorem Fits.unpack_pack (h : Fits m e) :
    (Float.Model.pack (.finite s m e h.pos)).unpack = .finite s m e h.pos := by
  obtain ⟨hlow, hhigh, he, he'⟩ := id h
  change unpack Format.binary64 (pack Format.binary64 (.finite s m e h.pos)) = _
  have hbiased : (e + Format.binary64.exponentBias + Format.binary64.mantissaBitsWithoutImplicit).toNat =
      (e + 1075).toNat := by
    change (e + 1023 + 52).toNat = _
    omega
  have hfits : ¬ 2 ^ Format.binary64.exponentBits ≤ (e + 1075).toNat + 1 := by
    change ¬ 2 ^ 11 ≤ _
    omega
  have hfull : m.log2 + 1 = Format.binary64.mantissaBits := by
    rw [h.log2_eq]
    rfl
  have hpack : pack Format.binary64 (.finite s m e h.pos) =
      packComponents Format.binary64 s (BitVec.ofNat _ (e + 1075).toNat) (BitVec.ofNat _ m) := by
    simp only [pack, hbiased, if_neg hfits, if_pos hfull]
  have hexponent : (BitVec.ofNat Format.binary64.exponentBits (e + 1075).toNat).toNat =
      (e + 1075).toNat := by
    rw [BitVec.toNat_ofNat]
    exact Nat.mod_eq_of_lt (by change _ < 2 ^ 11; omega)
  have hones : BitVec.ofNat Format.binary64.exponentBits (e + 1075).toNat ≠ -1#_ := by
    intro hone
    have hnat := congrArg BitVec.toNat hone
    rw [hexponent] at hnat
    change _ = 2047 at hnat
    omega
  have hzero : BitVec.ofNat Format.binary64.exponentBits (e + 1075).toNat ≠ 0#_ := by
    intro hone
    have hnat := congrArg BitVec.toNat hone
    rw [hexponent] at hnat
    change _ = 0 at hnat
    omega
  have hmantissa : (1#1 ++ BitVec.ofNat Format.binary64.mantissaBitsWithoutImplicit m).toNat = m := by
    refine (toNat_one_append _).trans ?_
    rw [BitVec.toNat_ofNat]
    omega
  rw [hpack]
  unfold unpack
  simp only [unpackMantissa_packComponents, unpackExponent_packComponents,
    unpackSign_packComponents, Sign.ofBitVec_toBitVec, hones, hzero, if_false, hexponent, hmantissa]
  congr 1
  change ((e + 1075).toNat : Int) - (1023 + 52) = e
  omega

theorem shiftRight_exact (m k : Nat) :
    (ExtendedMantissa.ofMantissaAndAccuracy (m * 2 ^ k) .exact >>> k) =
      ExtendedMantissa.ofMantissaAndAccuracy m .exact := by
  change k.repeat ExtendedMantissa.shiftRightOne _ = _
  -- The bits that go out are zeros, so the shifts may be made in any order.
  have hone : ∀ n, (ExtendedMantissa.ofMantissaAndAccuracy (n * 2) .exact).shiftRightOne =
      ExtendedMantissa.ofMantissaAndAccuracy n .exact := by
    intro n
    simp [ExtendedMantissa.ofMantissaAndAccuracy, ExtendedMantissa.shiftRightOne]
  induction k generalizing m with
  | zero => simp [Nat.repeat]
  | succ k ih =>
    have hm : m * 2 ^ (k + 1) = m * 2 * 2 ^ k := by ring
    rw [Nat.repeat, hm, ih (m * 2), hone]

theorem Fits.shiftToTargetExponent (h : Fits m e) (k : Nat) :
    shiftToTargetExponent Format.binary64 (m * 2 ^ k) (e - k) .exact =
      (ExtendedMantissa.ofMantissaAndAccuracy m .exact, e) := by
  have hlog : (m * 2 ^ k).log2 = 52 + k := by
    rw [Nat.log2_eq_iff (Nat.mul_pos h.pos (Nat.two_pow_pos k)).ne']
    constructor
    · rw [pow_add]
      exact Nat.mul_le_mul_right _ h.1
    · rw [show 52 + k + 1 = 53 + k by omega, pow_add]
      exact Nat.mul_lt_mul_of_pos_right h.2.1 (Nat.two_pow_pos k)
  have htarget : Format.binary64.targetExponent (totalExponent (m * 2 ^ k) (e - k)) = e := by
    have := h.2.2.1
    change max ((m * 2 ^ k).log2 + 1 + (e - k) - 53) (-1074) = e
    rw [hlog]
    push_cast
    omega
  have hshift : (e - (e - k)).toNat = k := by omega
  simp only [UnpackedFloat.shiftToTargetExponent, shiftToExponent, htarget, hshift, shiftRight_exact,
    Int.sub_add_cancel]

/-- A mantissa of full precision with zeros behind it is not changed by rounding. -/
theorem Fits.roundWithAccuracy (h : Fits m e) (k : Nat) :
    roundWithAccuracy Format.binary64 s (m * 2 ^ k) (e - k) .exact = .finite s m e h.pos := by
  have hagain := h.shiftToTargetExponent 0
  simp only [Nat.pow_zero, Nat.mul_one, Int.natCast_zero, Int.sub_zero] at hagain
  have hm : m ≠ 0 := h.pos.ne'
  simp only [UnpackedFloat.roundWithAccuracy, h.shiftToTargetExponent k]
  have hrounded : (ExtendedMantissa.ofMantissaAndAccuracy m .exact).roundedMantissa = m := rfl
  simp only [hrounded, hagain]
  exact dif_neg hm

end Fits

end Enclave.Number
