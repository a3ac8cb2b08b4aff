/-!
# Text blocks

Text that changes owner at the boundary lies in blocks of one allocator, which counts what it
hands out and takes back. Blocks are named by numbers that are never used twice.
-/
namespace Enclave

structure Ledger where
  allocated : Nat
  freed : Nat
  outstanding : List Nat
  deriving DecidableEq, Repr

namespace Ledger

def empty : Ledger := ⟨0, 0, []⟩

/-- The name of the block that the next allocation hands out. -/
def next (l : Ledger) : Nat :=
  l.allocated

def alloc (l : Ledger) : Ledger :=
  { l with allocated := l.allocated + 1, outstanding := l.allocated :: l.outstanding }

/-- Every time that a block is given back counts. -/
def free (l : Ledger) (block : Nat) : Ledger :=
  { l with freed := l.freed + 1, outstanding := l.outstanding.erase block }

def live (l : Ledger) : Nat :=
  l.allocated - l.freed

end Ledger
end Enclave
