import Enclave.Proofs.Act.Gains
import Enclave.Proofs.Boundary.Stored

/-! # What is left of payloads

Cells come and go with their references, and most of what happens leaves the payloads of those that stay
as they are. A write gives one cell a new payload, and so does an allocation.
-/
namespace Enclave

namespace World

/-- The payloads that are left are as they were, and none is new. -/
structure Keeps (w w' : World) : Prop where
  later : w.heap.Later w'.heap
  payload : ∀ id p, w'.heap.payload? id = some p → w.heap.payload? id = some p

/-- The payloads that are left are as they were, but that of `id`, which is `q`. -/
structure Sets (w : World) (id : CellId) (q : Payload) (w' : World) : Prop where
  later : w.heap.Later w'.heap
  payload : ∀ x p, w'.heap.payload? x = some p →
    if x = id then p = q else w.heap.payload? x = some p

variable {w w₁ w' : World} {id : CellId} {p q : Payload}

theorem Keeps.refl (w : World) : w.Keeps w :=
  ⟨.refl _, fun _ _ h => h⟩

theorem Keeps.trans (h : w.Keeps w₁) (h' : w₁.Keeps w') : w.Keeps w' :=
  ⟨h.later.trans h'.later, fun id p hp => h.payload id p (h'.payload id p hp)⟩

theorem Sets.keeps (h : w.Sets id q w₁) (h' : w₁.Keeps w') : w.Sets id q w' :=
  ⟨h.later.trans h'.later, fun x p hp => h.payload x p (h'.payload x p hp)⟩

theorem Keeps.sets (h : w.Keeps w₁) (h' : w₁.Sets id q w') : w.Sets id q w' := by
  refine ⟨h.later.trans h'.later, fun x p hp => ?_⟩
  have hx := h'.payload x p hp
  split
  · rwa [if_pos ‹_›] at hx
  · rw [if_neg ‹_›] at hx
    exact h.payload x p hx

/-! ## The working stack -/

theorem keeps_release (w : World) (stack : List Slot) (dropped : List Slot) :
    w.Keeps { w with heap := w.heap.releaseSlots dropped, stack := stack } :=
  ⟨Heap.later_releaseSlots _ _, fun _ _ => Heap.payload?_of_releaseAll⟩

theorem keeps_share (w : World) (s : Slot) : w.Keeps (w.share s) := by
  rw [share_eq]
  refine ⟨?_, fun id p hp => (Heap.payload?_retainSlot _ _ _).symm.trans hp⟩
  cases s with
  | scalar v => exact .refl _
  | cell id => exact Heap.later_retain _ id

theorem keeps_drop (w : World) : w.Keeps w.drop := by
  unfold drop
  split
  · exact .refl w
  · exact keeps_release w _ _

theorem keeps_settle (w : World) (n : Nat) : w.Keeps (w.settle n) := by
  unfold settle
  split
  · exact .refl w
  · exact keeps_release w _ _

/-- To secure a slot is to move an entry, or to share the slot. -/
theorem heap_secure (w : World) (base : Nat) (s : Slot) :
    (w.secure base s).heap = w.heap ∨ (w.secure base s).heap = w.heap.retainSlot s := by
  cases s with
  | scalar v => exact .inl rfl
  | cell id =>
    unfold secure secureUnder
    dsimp only
    split
    · unfold lift
      split <;> exact .inl rfl
    · rw [share_eq]
      exact .inr rfl

theorem payload?_secure (w : World) (base : Nat) (s : Slot) (id : CellId) :
    (w.secure base s).heap.payload? id = w.heap.payload? id := by
  rcases heap_secure w base s with h | h <;> rw [h]
  exact Heap.payload?_retainSlot _ _ _

theorem keeps_secure (w : World) (base : Nat) (s : Slot) : w.Keeps (w.secure base s) := by
  refine ⟨?_, fun id p hp => (payload?_secure w base s id).symm.trans hp⟩
  rcases heap_secure w base s with h | h
  · rw [h]
    exact .refl _
  · have hshare := (keeps_share w s).later
    rw [share_eq] at hshare
    rwa [h]

theorem keeps_of_gains {m₀ m : Machine} {g : Gain} (h : m₀.Gains g m) : m₀.world.Keeps m.world :=
  ⟨h.later, fun id _ hp => (h.heap.payload? id).symm.trans hp⟩

/-! ## New payloads -/

theorem sets_write (hp : w.heap.payload? id = some p) (q : Payload) (dropped stack : List Slot) :
    w.Sets id q { w with
      heap := (w.heap.setPayload id q).releaseSlots dropped, stack := stack } := by
  refine ⟨(Heap.later_setPayload _ _ q).trans (Heap.later_releaseSlots _ _), fun x r hr => ?_⟩
  have hr' := Heap.payload?_of_releaseAll hr
  rw [Heap.payload?_setPayload hp] at hr'
  split
  · rw [if_pos ‹_›, Option.some.injEq] at hr'
    exact hr'.symm
  · rwa [if_neg ‹_›] at hr'

theorem sets_stored (hp : w.heap.payload? id = some p) (s : Slot) (q : Payload) (old : Slot) :
    w.Sets id q (w.stored s id q old) := by
  let shared : World := { w with heap := w.heap.retainSlot s }
  have hkeeps : w.Keeps shared := by
    refine ⟨?_, fun _ _ h => (Heap.payload?_retainSlot _ _ _).symm.trans h⟩
    have hshare := (keeps_share w s).later
    rwa [share_eq] at hshare
  have hp' : shared.heap.payload? id = some p := (Heap.payload?_retainSlot _ _ _).trans hp
  exact hkeeps.sets (sets_write hp' q [old] w.stack)

theorem sets_install (w : World) (stack : List Slot) (q : Payload) :
    w.Sets w.heap.next q (install { w with stack := stack } q) := by
  refine ⟨Heap.later_alloc _ q, fun x p hp => ?_⟩
  simp only [install, Heap.payload?, Heap.cell?_alloc] at hp
  split
  · rw [if_pos ‹_›] at hp
    simpa using hp.symm
  · rwa [if_neg ‹_›] at hp

end World
end Enclave
