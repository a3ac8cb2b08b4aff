import Mathlib.Data.List.Perm.Subperm
import Enclave.Boundary.Ledger

/-! # Text blocks given back

What becomes of a ledger while blocks are handed out and given back. A ledger that owes some blocks
over an earlier one has got back all others that were handed out since. Once it owes none, every block
handed out since was given back exactly once, and no other block was, whatever happened in between.
-/
namespace Enclave.Ledger

/-- The ledger `l` has handed out the blocks `due` beyond what was outstanding in `l₀`; as many others as
it has handed out since it has taken back. -/
structure Owes (l₀ : Ledger) (due : List Nat) (l : Ledger) : Prop where
  outstanding : l.outstanding = due ++ l₀.outstanding
  allocated : l₀.allocated ≤ l.allocated
  freed : l.freed + due.length + l₀.allocated = l₀.freed + l.allocated

/-- What may happen to a ledger, with the blocks that are given back on the way, newest first. -/
inductive Course (l₀ : Ledger) : List Nat → Ledger → Prop
  | refl : Course l₀ [] l₀
  | alloc {returned : List Nat} {l : Ledger} (h : Course l₀ returned l) : Course l₀ returned l.alloc
  | free {returned : List Nat} {l : Ledger} (h : Course l₀ returned l) (block : Nat) :
      Course l₀ (block :: returned) (l.free block)

variable {l₀ l : Ledger} {due returned : List Nat} {block : Nat}

theorem Owes.refl (l : Ledger) : l.Owes [] l :=
  ⟨rfl, Nat.le_refl _, rfl⟩

theorem Owes.alloc (h : l₀.Owes due l) : l₀.Owes (l.next :: due) l.alloc := by
  have hfreed := h.freed
  refine ⟨congrArg _ h.outstanding, Nat.le_succ_of_le h.allocated, ?_⟩
  simp only [Ledger.alloc, List.length_cons]
  omega

theorem Owes.free (h : l₀.Owes (block :: due) l) : l₀.Owes due (l.free block) := by
  have hfreed := h.freed
  refine ⟨?_, h.allocated, ?_⟩
  · simp [Ledger.free, h.outstanding]
  · simp only [Ledger.free, List.length_cons] at hfreed ⊢
    omega

/-! ## Courses -/

/-- Names of blocks are given out one after the other. -/
def fresh (l₀ l : Ledger) : List Nat :=
  List.range' l₀.allocated (l.allocated - l₀.allocated)

theorem Course.allocated (h : l₀.Course returned l) : l₀.allocated ≤ l.allocated := by
  induction h with
  | refl => exact Nat.le_refl _
  | alloc _ ih => exact Nat.le_succ_of_le ih
  | free _ _ ih => exact ih

/-- Every time that a block is given back is counted. -/
theorem Course.freed (h : l₀.Course returned l) : l.freed = l₀.freed + returned.length := by
  induction h with
  | refl => rfl
  | alloc _ ih => exact ih
  | free _ _ ih =>
    simp only [Ledger.free, List.length_cons]
    omega

/-- A block that was out, or was handed out since, is out or was given back. -/
theorem Course.count_le (h : l₀.Course returned l) (b : Nat) :
    l₀.outstanding.count b + (l₀.fresh l).count b ≤ l.outstanding.count b + returned.count b := by
  induction h with
  | refl => simp [fresh]
  | @alloc returned l h ih =>
    have hle := h.allocated
    have hfresh : l₀.fresh l.alloc = l₀.fresh l ++ [l.allocated] := by
      simp only [fresh, Ledger.alloc, Nat.succ_sub hle, List.range'_concat]
      rw [show l₀.allocated + 1 * (l.allocated - l₀.allocated) = l.allocated by omega]
    rw [hfresh]
    simp only [Ledger.alloc, List.count_append, List.count_cons, List.count_nil]
    omega
  | @free returned l h block ih =>
    change _ + (l₀.fresh l).count b ≤ (l.outstanding.erase block).count b + _
    rw [List.count_erase, List.count_cons]
    by_cases hb : block = b
    · simp only [hb, beq_self_eq_true, if_true]
      omega
    · simp only [beq_iff_eq, hb, if_false]
      omega

/-- What is outstanding is what it was, and each block handed out since was given back once. -/
structure Settled (l₀ l : Ledger) : Prop where
  outstanding : l.outstanding = l₀.outstanding
  live : l.live = l₀.live
  once : ∀ returned, l₀.Course returned l → returned.Perm (l₀.fresh l)

theorem Owes.settled (h : l₀.Owes [] l) : l₀.Settled l := by
  have hfreed := h.freed
  have hallocated := h.allocated
  refine ⟨h.outstanding, ?_, fun returned hc => ?_⟩
  · simp only [Ledger.live, List.length_nil] at hfreed ⊢
    omega
  · have hsub : (l₀.fresh l).Subperm returned := by
      refine List.subperm_ext_iff.mpr fun b _ => ?_
      have hcount := hc.count_le b
      rw [h.outstanding, List.nil_append] at hcount
      omega
    have hlength := hc.freed
    refine (hsub.perm_of_length_le ?_).symm
    simp only [fresh, List.length_range', List.length_nil] at hfreed ⊢
    omega

end Enclave.Ledger
