import Enclave.Proofs.Heap.Release

/-! # Counters of the heap

Whatever happens to a heap, its counters only go up, so the difference of two snapshots taken in order
is what was counted between them. On a counted heap the counters account for the cells that are alive
and for the references to them.
-/
namespace Enclave

namespace Tally

/-- No counter of the first tally is higher than in the second one. -/
structure Le (t t' : Tally) : Prop where
  allocated : t.allocated ≤ t'.allocated
  freed : t.freed ≤ t'.freed
  retains : t.retains ≤ t'.retains
  releases : t.releases ≤ t'.releases

variable {t t₁ t' : Tally}

theorem Le.refl (t : Tally) : t.Le t :=
  ⟨Nat.le_refl _, Nat.le_refl _, Nat.le_refl _, Nat.le_refl _⟩

theorem Le.trans (h : t.Le t₁) (h' : t₁.Le t') : t.Le t' :=
  ⟨Nat.le_trans h.allocated h'.allocated, Nat.le_trans h.freed h'.freed,
    Nat.le_trans h.retains h'.retains, Nat.le_trans h.releases h'.releases⟩

/-- A tally is an earlier one and what was counted since. -/
structure Continues (t' t : Tally) : Prop where
  allocated : t'.allocated = t.allocated + (t'.since t).allocated
  freed : t'.freed = t.freed + (t'.since t).freed
  retains : t'.retains = t.retains + (t'.since t).retains
  releases : t'.releases = t.releases + (t'.since t).releases

theorem Le.continues (h : t.Le t') : t'.Continues t :=
  ⟨(Nat.add_sub_cancel' h.allocated).symm, (Nat.add_sub_cancel' h.freed).symm,
    (Nat.add_sub_cancel' h.retains).symm, (Nat.add_sub_cancel' h.releases).symm⟩

end Tally

namespace Heap

variable {h : Heap} {out : CellId → Nat} {id : CellId} {cell : Cell}

/-! ## Counting up -/

theorem tally_alloc (h : Heap) (p : Payload) : h.tally.Le (h.alloc p).tally :=
  ⟨Nat.le_succ _, Nat.le_refl _, Nat.le_refl _, Nat.le_refl _⟩

theorem tally_retain (h : Heap) (id : CellId) : h.tally.Le (h.retain id).tally := by
  unfold retain
  split
  · exact ⟨Nat.le_refl _, Nat.le_refl _, Nat.le_succ _, Nat.le_refl _⟩
  · exact .refl _

theorem tally_setPayload (h : Heap) (id : CellId) (p : Payload) :
    (h.setPayload id p).tally = h.tally := by
  unfold setPayload
  split <;> rfl

theorem tally_releaseAll (h : Heap) (pending : List CellId) :
    h.tally.Le (h.releaseAll pending).tally := by
  induction h, pending using releaseAll_induct with
  | nil h =>
    rw [releaseAll_nil]
    exact .refl _
  | dead h id rest hcell ih =>
    rw [releaseAll_dead hcell]
    exact ih
  | last h id rest cell hcell hrefs ih =>
    rw [releaseAll_last hcell hrefs]
    have hstep : h.tally.Le (h.reclaim id).tally :=
      ⟨Nat.le_refl _, Nat.le_succ _, Nat.le_refl _, Nat.le_succ _⟩
    exact hstep.trans ih
  | more h id rest cell hcell hrefs ih =>
    rw [releaseAll_more hcell hrefs]
    have hstep : h.tally.Le (h.lower id cell).tally :=
      ⟨Nat.le_refl _, Nat.le_refl _, Nat.le_refl _, Nat.le_succ _⟩
    exact hstep.trans ih

theorem tally_releaseSlots (h : Heap) (slots : List Slot) :
    h.tally.Le (h.releaseSlots slots).tally :=
  tally_releaseAll h _

/-! ## What the counters account for -/

/-- The counters account for the live cells and for the references to them; each of the two ways in
which they can be balanced says that nothing is alive. -/
structure Tallied (h : Heap) : Prop where
  cells : h.tally.allocated = h.tally.freed + h.total presence
  references : h.tally.allocated + h.tally.retains = h.tally.releases + h.total cellRefs
  positive : ∀ id cell, h.cell? id = some cell → 1 ≤ cell.refs
  live : h.tally.freed ≤ h.tally.allocated ∧ h.tally.live = h.total presence
  released_iff :
    h.tally.allocated + h.tally.retains = h.tally.releases ↔ ∀ id, h.isLive id = false
  freed_iff : h.tally.allocated = h.tally.freed ↔ ∀ id, h.isLive id = false
  balanced_iff : h.tally.isBalanced = true ↔ ∀ id, h.isLive id = false

theorem Counted.tallied (hc : h.Counted out) : h.Tallied := by
  have hcells := hc.cells
  have hreferences := hc.references
  refine ⟨hcells, hreferences, hc.positive, ⟨by omega, ?_⟩, ?_, ?_, hc.isBalanced_iff⟩
  · rw [Tally.live]
    omega
  · rw [← hc.total_refs_eq_zero]
    omega
  · rw [← h.total_presence_eq_zero]
    omega

end Heap
end Enclave
