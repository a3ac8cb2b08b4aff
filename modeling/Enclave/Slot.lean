import Enclave.Scalar

/-!
# Slots

A slot is a value inside the runtime: a scalar, or one counted reference to a heap cell. Cells are
named by numbers that are never used twice.
-/
namespace Enclave

abbrev CellId := Nat

inductive Slot where
  | scalar (v : Scalar)
  | cell (id : CellId)
  deriving Inhabited

namespace Slot

def null : Slot :=
  scalar .null

/-- The cell that the slot holds a reference to. -/
def cell? : Slot → Option CellId
  | scalar _ => none
  | cell id => some id

/-- Every cell is true. -/
def truthy : Slot → Bool
  | scalar v => v.truthy
  | cell _ => true

/-- No cell is a number. -/
def toNumber : Slot → Float
  | scalar v => v.toNumber
  | cell _ => Number.notANumber

/-- Cells are equal when they are one cell. -/
def strictEq : Slot → Slot → Bool
  | scalar a, scalar b => a.strictEq b
  | cell a, cell b => a == b
  | _, _ => false

end Slot
end Enclave
