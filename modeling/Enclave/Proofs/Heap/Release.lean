import Enclave.Proofs.Heap.Counted
import Enclave.World

/-! # Release

The cascade gives back exactly the references that it is told to: of a heap that was counted with
them it makes one that is counted without. Cells that survive keep their payloads.
-/
namespace Enclave

namespace Heap

variable {h : Heap} {out : CellId → Nat} {id : CellId} {cell : Cell}

/-- The heap after the last reference to a cell was dropped. -/
def reclaim (h : Heap) (id : CellId) : Heap :=
  { h.setCell id none with
    tally := { h.tally with releases := h.tally.releases + 1, freed := h.tally.freed + 1 } }

/-- The heap after one of several references to a cell was dropped. -/
def lower (h : Heap) (id : CellId) (cell : Cell) : Heap :=
  { h.setCell id (some { cell with refs := cell.refs - 1 }) with
    tally := { h.tally with releases := h.tally.releases + 1 } }

theorem cell?_reclaim (hcell : h.cell? id = some cell) (x : CellId) :
    (h.reclaim id).cell? x = if x = id then none else h.cell? x :=
  cell?_setCell hcell none x

theorem cell?_lower (hcell : h.cell? id = some cell) (x : CellId) :
    (h.lower id cell).cell? x =
      if x = id then some { cell with refs := cell.refs - 1 } else h.cell? x :=
  cell?_setCell hcell _ x

/-! ## One reference -/

/-- A cell goes when its last holder goes; its payload's slots are then outside the heap. -/
theorem Exact.reclaim (hc : h.Exact fun x => (Slot.cell id).owns x + out x)
    (hcell : h.cell? id = some cell) (hrefs : cell.refs ≤ 1) :
    (h.reclaim id).Exact fun x => holders cell.payload.slots x + out x := by
  have hpos := hc.positive id cell hcell
  refine ⟨fun x => ?_, fun x c hl => ?_⟩
  · have he := hc.exact x
    have ht := total_setCell (fun c => holders (cellSlots c) x) h none hcell
    simp only [held, refs, cellSlots_some, cellSlots_none, holders_nil, Slot.owns_cell] at he ht ⊢
    change (((h.reclaim id).cell? x).map (·.refs)).getD 0 =
      (h.setCell id none).total (fun c => holders (cellSlots c) x) + _
    rw [cell?_reclaim hcell]
    by_cases hid : x = id
    · subst hid
      simp only [hcell, if_true, Option.map_some, Option.map_none, Option.getD_some,
        Option.getD_none] at he ⊢
      omega
    · simp only [hid, Ne.symm hid, if_false] at he ⊢
      omega
  · rw [cell?_reclaim hcell] at hl
    split at hl
    · cases hl
    · exact hc.positive x c hl

theorem Counted.reclaim (hc : h.Counted fun x => (Slot.cell id).owns x + out x)
    (hcell : h.cell? id = some cell) (hrefs : cell.refs ≤ 1) :
    (h.reclaim id).Counted fun x => holders cell.payload.slots x + out x := by
  have hpos := hc.positive id cell hcell
  have hexact := hc.exactly.reclaim hcell hrefs
  refine ⟨hexact.exact, hexact.positive, fun x c hl => ?_, ?_, ?_⟩
  · rw [cell?_reclaim hcell] at hl
    split at hl
    · cases hl
    · exact hc.kinds x c hl
  · have ht := total_setCell presence h none hcell
    have := hc.cells
    simp only [presence] at ht
    change h.tally.allocated = h.tally.freed + 1 + (h.setCell id none).total presence
    omega
  · have ht := total_setCell cellRefs h none hcell
    have := hc.references
    simp only [cellRefs] at ht
    change h.tally.allocated + h.tally.retains =
      h.tally.releases + 1 + (h.setCell id none).total cellRefs
    omega

theorem owns_lowered (hrefs : 1 < cell.refs) (x : CellId) :
    (if x = id then cell.refs - 1 else 0) + holders cell.payload.slots x +
        ((Slot.cell id).owns x + out x) =
      (if x = id then cell.refs else 0) + holders cell.payload.slots x + out x := by
  by_cases hx : x = id
  · subst hx
    simp only [if_true, Slot.owns_self]
    omega
  · simp only [hx, Ne.symm hx, if_false, Slot.owns_cell]
    omega

/-- One holder of several goes. -/
theorem Exact.lower (hc : h.Exact fun x => (Slot.cell id).owns x + out x)
    (hcell : h.cell? id = some cell) (hrefs : 1 < cell.refs) : (h.lower id cell).Exact out :=
  hc.setCell hcell { cell with refs := cell.refs - 1 } _ (Nat.sub_pos_of_lt hrefs)
    (owns_lowered hrefs)

theorem Counted.lower (hc : h.Counted fun x => (Slot.cell id).owns x + out x)
    (hcell : h.cell? id = some cell) (hrefs : 1 < cell.refs) : (h.lower id cell).Counted out := by
  refine hc.setCell hcell { cell with refs := cell.refs - 1 } _ (hc.kinds id cell hcell)
    (Nat.sub_pos_of_lt hrefs) (owns_lowered hrefs) ⟨rfl, rfl⟩ ?_
  dsimp only
  omega

theorem later_reclaim (hcell : h.cell? id = some cell) : h.Later (h.reclaim id) := by
  refine ⟨by simp [Heap.reclaim, Heap.next, Heap.setCell], fun x k _ hk => ?_⟩
  simp only [kind?, cell?_reclaim hcell] at hk
  split at hk
  · cases hk
  · exact hk

theorem later_lower (hcell : h.cell? id = some cell) : h.Later (h.lower id cell) :=
  later_setCell hcell { cell with refs := cell.refs - 1 } rfl _

/-! ## The cascade -/

/-- The first pending reference, apart from the others. -/
theorem Counted.first {rest : List CellId} (hc : h.Counted fun x => (id :: rest).count x + out x) :
    h.Counted fun x => (Slot.cell id).owns x + (rest.count x + out x) := by
  refine hc.congr fun x => ?_
  rw [List.count_cons, Slot.owns_cell]
  simp only [beq_iff_eq]
  omega

theorem Counted.pending_alive {rest : List CellId}
    (hc : h.Counted fun x => (id :: rest).count x + out x) : h.cell? id ≠ none := by
  intro hcell
  have he := hc.exact id
  simp only [refs, hcell, Option.map_none, Option.getD_none, List.count_cons_self] at he
  omega

/-- Of a step of the cascade there are four forms. -/
theorem releaseAll_nil (h : Heap) : h.releaseAll [] = h := by
  rw [releaseAll]

theorem releaseAll_dead (hcell : h.cell? id = none) (rest : List CellId) :
    h.releaseAll (id :: rest) = h.releaseAll rest := by
  rw [releaseAll]
  split
  · rfl
  · simp_all

theorem releaseAll_last (hcell : h.cell? id = some cell) (hrefs : cell.refs ≤ 1)
    (rest : List CellId) :
    h.releaseAll (id :: rest) = (h.reclaim id).releaseAll (cell.payload.references ++ rest) := by
  rw [releaseAll]
  split
  · simp_all
  · rename_i c hc
    obtain rfl : c = cell := by simpa [hc] using hcell
    simp only [if_pos hrefs]
    rfl

theorem releaseAll_more (hcell : h.cell? id = some cell) (hrefs : 1 < cell.refs)
    (rest : List CellId) :
    h.releaseAll (id :: rest) = (h.lower id cell).releaseAll rest := by
  rw [releaseAll]
  split
  · simp_all
  · rename_i c hc
    obtain rfl : c = cell := by simpa [hc] using hcell
    simp only [if_neg (Nat.not_le.mpr hrefs)]
    rfl

/-- What holds of every step of the cascade from one heap and its pending references to the next
holds of the whole cascade. -/
theorem releaseAll_induct {motive : Heap → List CellId → Prop}
    (nil : ∀ h, motive h [])
    (dead : ∀ h id rest, h.cell? id = none → motive h rest → motive h (id :: rest))
    (last : ∀ h id rest cell, h.cell? id = some cell → cell.refs ≤ 1 →
      motive (h.reclaim id) (cell.payload.references ++ rest) → motive h (id :: rest))
    (more : ∀ h id rest cell, h.cell? id = some cell → 1 < cell.refs →
      motive (h.lower id cell) rest → motive h (id :: rest))
    (h : Heap) (pending : List CellId) : motive h pending := by
  induction h, pending using releaseAll.induct with
  | case1 h => exact nil h
  | case2 h id rest hc ih => exact dead h id rest hc ih
  | case3 h id rest cell hc hrefs _ ih => exact last h id rest cell hc hrefs ih
  | case4 h id rest cell hc hrefs _ ih => exact more h id rest cell hc (Nat.not_le.mp hrefs) ih

/-- References may be dropped in two goes. -/
theorem releaseAll_append (h : Heap) (pending more : List CellId) :
    h.releaseAll (pending ++ more) = (h.releaseAll pending).releaseAll more := by
  induction h, pending using releaseAll_induct with
  | nil h => rw [releaseAll_nil, List.nil_append]
  | dead h id rest hcell ih => rw [List.cons_append, releaseAll_dead hcell, releaseAll_dead hcell, ih]
  | last h id rest cell hcell hrefs ih =>
    rw [List.cons_append, releaseAll_last hcell hrefs, releaseAll_last hcell hrefs, ← ih,
      List.append_assoc]
  | more h id rest cell hcell hrefs ih =>
    rw [List.cons_append, releaseAll_more hcell hrefs, releaseAll_more hcell hrefs, ih]

theorem Counted.releaseAll {pending : List CellId}
    (hc : h.Counted fun x => pending.count x + out x) : (h.releaseAll pending).Counted out := by
  induction h, pending using releaseAll_induct with
  | nil h =>
    rw [releaseAll_nil]
    exact hc.congr fun x => by simp
  | dead h id rest hcell ih =>
    exact absurd hcell hc.pending_alive
  | last h id rest cell hcell hrefs ih =>
    rw [releaseAll_last hcell hrefs]
    refine ih ((hc.first.reclaim hcell hrefs).congr fun x => ?_)
    rw [List.count_append, Payload.references, count_filterMap_cell?, Nat.add_assoc]
  | more h id rest cell hcell hrefs ih =>
    rw [releaseAll_more hcell hrefs]
    exact ih (hc.first.lower hcell hrefs)

theorem later_releaseAll (h : Heap) (pending : List CellId) : h.Later (h.releaseAll pending) := by
  induction h, pending using releaseAll_induct with
  | nil h =>
    rw [releaseAll_nil]
    exact Later.refl h
  | dead h id rest hcell ih =>
    rw [releaseAll_dead hcell]
    exact ih
  | last h id rest cell hcell hrefs ih =>
    rw [releaseAll_last hcell hrefs]
    exact (later_reclaim hcell).trans ih
  | more h id rest cell hcell hrefs ih =>
    rw [releaseAll_more hcell hrefs]
    exact (later_lower hcell).trans ih

/-! ## Survivors -/

theorem payload?_reclaim (hcell : h.cell? id = some cell) {x : CellId} {p : Payload}
    (hp : (h.reclaim id).payload? x = some p) : h.payload? x = some p := by
  simp only [payload?, cell?_reclaim hcell] at hp
  split at hp
  · cases hp
  · exact hp

theorem payload?_lower (hcell : h.cell? id = some cell) (x : CellId) :
    (h.lower id cell).payload? x = h.payload? x := by
  simp only [payload?, cell?_lower hcell]
  split
  · rename_i he
    rw [he, hcell]
    rfl
  · rfl

/-- A cell that survives has the payload that it had. -/
theorem payload?_of_releaseAll {pending : List CellId} {x : CellId} {p : Payload}
    (hp : (h.releaseAll pending).payload? x = some p) : h.payload? x = some p := by
  induction h, pending using releaseAll_induct with
  | nil h => rwa [releaseAll_nil] at hp
  | dead h id rest hcell ih =>
    rw [releaseAll_dead hcell] at hp
    exact ih hp
  | last h id rest cell hcell hrefs ih =>
    rw [releaseAll_last hcell hrefs] at hp
    exact payload?_reclaim hcell (ih hp)
  | more h id rest cell hcell hrefs ih =>
    rw [releaseAll_more hcell hrefs] at hp
    exact payload?_lower hcell x ▸ ih hp

/-- A cell's payload holds a reference to another cell, or to the same one. -/
def Edge (h : Heap) (a b : CellId) : Prop :=
  ∃ p, h.payload? a = some p ∧ Slot.cell b ∈ p.slots

theorem held_pos {a b : CellId} (he : h.Edge a b) : 0 < h.held b := by
  obtain ⟨p, hp, hb⟩ := he
  obtain ⟨cell, hcell, rfl⟩ := Option.map_eq_some_iff.mp hp
  rw [← holders_payloadSlots, holders_pos, payloadSlots, List.mem_flatMap]
  have hget : h.cells[a]? = some (some cell) := Option.join_eq_some_iff.mp hcell
  exact ⟨some cell, Array.mem_toList_iff.mpr (Array.mem_of_getElem? hget), hb⟩

/-! ## Slots -/

theorem Counted.releaseSlots {slots : List Slot}
    (hc : h.Counted fun x => holders slots x + out x) : (h.releaseSlots slots).Counted out :=
  Counted.releaseAll (hc.congr fun x => by rw [count_filterMap_cell?])

theorem releaseSlots_nil (h : Heap) : h.releaseSlots [] = h :=
  releaseAll_nil h

/-- A scalar holds nothing that could be released. -/
theorem releaseSlots_scalar (h : Heap) (v : Scalar) : h.releaseSlots [.scalar v] = h :=
  releaseAll_nil h

theorem releaseSlots_append (h : Heap) (xs ys : List Slot) :
    h.releaseSlots (xs ++ ys) = (h.releaseSlots xs).releaseSlots ys := by
  rw [releaseSlots, List.filterMap_append, releaseAll_append]
  rfl

theorem later_releaseSlots (h : Heap) (slots : List Slot) : h.Later (h.releaseSlots slots) :=
  later_releaseAll h _

end Heap
end Enclave
