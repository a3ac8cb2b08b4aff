import Enclave.Number.Binary

/-!
# The fewest digits that read back

Every real number closer to a double than to its neighbours reads back as that double. Among the
decimals in that interval this module takes one with the fewest digits, and of those the nearest.
The search looks at the two neighbours of the value on ever finer decimal grids.
-/
namespace Enclave.Number

def digitsOf (n : Nat) : List Char :=
  Nat.toDigits 10 n

/-- The magnitude `digits * 10 ^ exponent`. -/
structure Decimal where
  digits : Nat
  exponent : Int
  deriving DecidableEq, Repr

/-- A positive value and the ends of the interval that rounds to it, over one denominator. -/
structure Rounding where
  value : Nat
  low : Nat
  high : Nat
  denominator : Nat
  closed : Bool

namespace Rounding

/-- The interval reaches half way to each neighbour. The lower neighbour of a power of two is
nearer by half. The ends belong to it exactly when the mantissa is even. -/
def ofParts (m : Nat) (q : Int) : Rounding :=
  let uneven := m = Nat.pow 2 52 ∧ -1074 < q
  let lower := if uneven then 1 else 2
  let up := Nat.pow 2 q.toNat
  let down := 4 * Nat.pow 2 (-q).toNat
  ⟨4 * m * up, (4 * m - lower) * up, (4 * m + 2) * up, down, m % 2 == 0⟩

/-- The number of digits before the point; zero or negative counts the zeros after it. -/
def magnitude (r : Rounding) : Int :=
  if r.denominator ≤ r.value then (digitsOf (r.value / r.denominator)).length
  else 1 - (digitsOf ((r.denominator - 1) / r.value)).length

/-- Is `n` steps of the grid `10 ^ e` inside the interval? -/
def admits (r : Rounding) (n : Nat) (e : Int) : Bool :=
  let scaled := n * Nat.pow 10 e.toNat * r.denominator
  let low := r.low * Nat.pow 10 (-e).toNat
  let high := r.high * Nat.pow 10 (-e).toNat
  if r.closed then low ≤ scaled && scaled ≤ high else low < scaled && scaled < high

/-- The decimal on the grid `10 ^ e` that reads back, the upper one of two equally near. -/
def onGrid (r : Rounding) (e : Int) : Option Decimal :=
  let top := r.value * Nat.pow 10 (-e).toNat
  let step := r.denominator * Nat.pow 10 e.toNat
  let below := top / step
  let upperIsNearer := step ≤ 2 * (top % step)
  match r.admits below e, r.admits (below + 1) e with
  | true, true => some ⟨if upperIsNearer then below + 1 else below, e⟩
  | true, false => some ⟨below, e⟩
  | false, true => some ⟨below + 1, e⟩
  | false, false => none

/-- Tries grids with one digit more each time. -/
def search (r : Rounding) (top : Int) : Nat → Nat → Decimal
  | 0, _ => ⟨0, 0⟩
  | room + 1, count =>
    match r.onGrid (top - count) with
    | some d => d
    | none => search r top room (count + 1)

end Rounding

/-- The first grid is the power of ten above the value; seventeen digits always suffice. -/
def shortest (m : Nat) (q : Int) : Decimal :=
  let r := Rounding.ofParts m q
  r.search r.magnitude 18 0

end Enclave.Number
