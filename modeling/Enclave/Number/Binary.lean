/-!
# Doubles as whole numbers times powers of two

A finite double is a sign, a whole number below `2 ^ 53` and a power of two. All number text is
computed from these parts in exact arithmetic.
-/
namespace Enclave.Number

inductive Parts where
  | nan
  | infinite (negative : Bool)
  | finite (negative : Bool) (mantissa : Nat) (exponent : Int)
  deriving DecidableEq, Repr

namespace Parts

/-- The 64 bits hold a sign, 11 bits of exponent and 52 bits of fraction. -/
def ofBits (bits : Nat) : Parts :=
  let negative := bits / Nat.pow 2 63 % 2 == 1
  let biased : Nat := bits / Nat.pow 2 52 % Nat.pow 2 11
  let fraction : Nat := bits % Nat.pow 2 52
  if biased = 2047 then
    if fraction = 0 then infinite negative else nan
  else if biased = 0 then finite negative fraction (-1074)
  else finite negative (Nat.pow 2 52 + fraction) (Int.ofNat biased - 1075)

def ofFloat (x : Float) : Parts :=
  ofBits x.toBits.toNat

end Parts

/-- The magnitude `m * 2 ^ q` as a whole number, when it is one. -/
def wholeOf? (m : Nat) (q : Int) : Option Nat :=
  match q with
  | .ofNat k => some (m * Nat.pow 2 k)
  | .negSucc k => if m % Nat.pow 2 (k + 1) = 0 then some (m / Nat.pow 2 (k + 1)) else none

/-- A whole number as a double; exact up to `2 ^ 53`, nearest beyond. -/
def ofWhole (n : Nat) : Float :=
  Float.ofScientific n false 0

/-- The whole number that a double is, for a double that is one and is not negative. -/
def toWhole? (x : Float) : Option Nat :=
  match Parts.ofFloat x with
  | .finite negative m q => if negative ∧ m ≠ 0 then none else wholeOf? m q
  | _ => none

/-- A double cut off at the point and kept between zero and a limit; not-a-number is zero. -/
def clampWhole (limit : Nat) (x : Float) : Nat :=
  match Parts.ofFloat x with
  | .nan => 0
  | .infinite negative => if negative then 0 else limit
  | .finite true _ _ => 0
  | .finite false m (.ofNat k) => min (m * Nat.pow 2 k) limit
  | .finite false m (.negSucc k) => min (m / Nat.pow 2 (k + 1)) limit

end Enclave.Number
