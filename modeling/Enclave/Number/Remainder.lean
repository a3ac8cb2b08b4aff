import Enclave.Number.Binary

/-!
# Remainder of doubles

The remainder of a division truncated toward zero. It is always a double, so it is computed
without rounding: both operands are put over one power of two and divided as whole numbers.
-/
namespace Enclave.Number

namespace Parts

/-- The bits of a finite value whose mantissa is below `2 ^ 53` and whose exponent is at least
`-1074`; the mantissa is first moved up as far as the format wants it. -/
def finiteBits (m : Nat) (q : Int) : Nat :=
  if m = 0 then 0
  else
    let shift := min (52 - m.log2) (q + 1074).toNat
    let mantissa := m * Nat.pow 2 shift
    let exponent := q - shift
    if mantissa < Nat.pow 2 52 then mantissa
    else (exponent + 1075).toNat * Nat.pow 2 52 + (mantissa - Nat.pow 2 52)

def toFloat : Parts → Float
  | nan => 0.0 / 0.0
  | infinite negative => if negative then -1.0 / 0.0 else 1.0 / 0.0
  | finite negative m q =>
    Float.ofBits (UInt64.ofNat ((if negative then Nat.pow 2 63 else 0) + finiteBits m q))

/-- The remainder has the sign of the dividend. -/
def remainder : Parts → Parts → Parts
  | finite negative m q, finite _ n p =>
    if n = 0 then nan
    else
      let low := min q p
      finite negative (m * Nat.pow 2 (q - low).toNat % (n * Nat.pow 2 (p - low).toNat)) low
  | finite negative m q, infinite _ => finite negative m q
  | _, _ => nan

end Parts

def remainder (x y : Float) : Float :=
  (Parts.remainder (.ofFloat x) (.ofFloat y)).toFloat

end Enclave.Number
