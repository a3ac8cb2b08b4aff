import Enclave.Proofs.Heap.Release

/-! # References in hand

Whoever works with cells for a while has references in hand beside those that the heap had before.
Such a heap has the same cells with higher counts, and giving the references up leads back to the
cells as they were.
-/
namespace Enclave

/-- Payloads lie behind handles. -/
theorem Payload.isHandle_kind (p : Payload) : p.kind.isHandle = true := by
  cases p <;> rfl

namespace Heap

/-- Every live cell has a reference and the kind of its payload, and whatever its payload holds is
alive. -/
structure Proper (h : Heap) : Prop where
  positive : ∀ id cell, h.cell? id = some cell → 0 < cell.refs
  kinds : ∀ id cell, h.cell? id = some cell → cell.kind = cell.payload.kind
  closed : ∀ id p, h.payload? id = some p → ∀ x, Slot.cell x ∈ p.slots → h.isLive x = true

variable {h h' : Heap} {slots slots' dropped : List Slot} {id : CellId} {cell : Cell}

theorem Counted.proper {out : CellId → Nat} (hc : h.Counted out) : h.Proper := by
  refine ⟨hc.positive, hc.kinds, fun id p hp x hx => hc.isLive_of_holder ?_⟩
  have : 0 < h.held x := held_pos ⟨p, hp, hx⟩
  omega

/-- The kind that a cell was made with is that of what it holds. -/
theorem Proper.kind? (hc : h.Proper) (id : CellId) : h.kind? id = (h.payload? id).map Payload.kind := by
  cases hcell : h.cell? id with
  | none => simp only [Heap.kind?, Heap.payload?, hcell, Option.map_none]
  | some cell =>
    simp only [Heap.kind?, Heap.payload?, hcell, Option.map_some, hc.kinds id cell hcell]

/-- The heap `h'` is the heap `h` with one more reference for each of the slots. Only the tally may
differ beside that. -/
structure Raised (h : Heap) (slots : List Slot) (h' : Heap) : Prop where
  next : h'.next = h.next
  cells : ∀ id, h'.cell? id =
    (h.cell? id).map fun cell => { cell with refs := cell.refs + holders slots id }

theorem Raised.refl (h : Heap) : h.Raised [] h :=
  ⟨rfl, fun id => by simp⟩

theorem Raised.congr (hr : h.Raised slots h') (hs : ∀ id, holders slots' id = holders slots id) :
    h.Raised slots' h' :=
  ⟨hr.next, fun id => by rw [hr.cells, hs]⟩

theorem Raised.payload? (hr : h.Raised slots h') (id : CellId) : h'.payload? id = h.payload? id := by
  simp only [Heap.payload?, hr.cells, Option.map_map]
  rfl

theorem Raised.kind? (hr : h.Raised slots h') (id : CellId) : h'.kind? id = h.kind? id := by
  simp only [Heap.kind?, hr.cells, Option.map_map]
  rfl

theorem Raised.isLive (hr : h.Raised slots h') (id : CellId) : h'.isLive id = h.isLive id := by
  simp only [Heap.isLive, hr.cells, Option.isSome_map]

/-- The count of a live cell is higher by the references in hand. -/
theorem Raised.refs (hr : h.Raised slots h') (hl : h.isLive id = true) :
    h'.refs id = h.refs id + holders slots id := by
  obtain ⟨cell, hcell⟩ := isLive_iff.mp hl
  simp [Heap.refs, hr.cells, hcell]

/-- Cells hold what they held before. -/
theorem Raised.payloadSlots (hr : h.Raised slots h') : h'.payloadSlots = h.payloadSlots := by
  have hcells : h'.cells.toList.map cellSlots = h.cells.toList.map cellSlots := by
    apply List.ext_getElem
    · simpa [Heap.next] using hr.next
    · intro i hi hi'
      simp only [List.length_map, Array.length_toList] at hi hi'
      have hcell := hr.cells i
      simp only [Heap.cell?, Array.getElem?_eq_getElem hi, Array.getElem?_eq_getElem hi',
        Option.join_some] at hcell
      simp only [List.getElem_map, Array.getElem_toList, hcell]
      cases h.cells[i] <;> rfl
  rw [Heap.payloadSlots, Heap.payloadSlots, List.flatMap_def, List.flatMap_def, hcells]

theorem Raised.retain (hr : h.Raised slots h') (id : CellId) :
    h.Raised (.cell id :: slots) (h'.retain id) := by
  unfold Heap.retain
  cases hcell : h.cell? id with
  | none =>
    have hcell' : h'.cell? id = none := by rw [hr.cells, hcell, Option.map_none]
    rw [hcell']
    refine ⟨hr.next, fun x => ?_⟩
    dsimp only
    rw [hr.cells]
    by_cases hx : x = id
    · rw [hx, hcell, Option.map_none, Option.map_none]
    · simp [Slot.owns_cell, Ne.symm hx]
  | some cell =>
    have hcell' : h'.cell? id = some { cell with refs := cell.refs + holders slots id } := by
      rw [hr.cells, hcell, Option.map_some]
    rw [hcell']
    refine ⟨by simpa [Heap.next, setCell] using hr.next, fun x => ?_⟩
    change (h'.setCell id _).cell? x = _
    rw [cell?_setCell hcell']
    by_cases hx : x = id
    · rw [hx, hcell]
      simp only [if_true, Option.map_some, holders_cons, Slot.owns_self]
      rw [show cell.refs + holders slots id + 1 = cell.refs + (1 + holders slots id) by omega]
    · rw [if_neg hx, hr.cells]
      simp [Slot.owns_cell, Ne.symm hx]

/-- No cell goes when references are given up that were only in hand. -/
theorem Raised.releaseSlots (hp : h.Proper) (hr : h.Raised (dropped ++ slots) h') :
    h.Raised slots (h'.releaseSlots dropped) := by
  induction dropped generalizing h' with
  | nil =>
    rw [releaseSlots_nil]
    exact hr
  | cons s rest ih =>
    cases s with
    | scalar v =>
      refine ih (hr.congr fun id => ?_)
      simp
    | cell id =>
      change h.Raised slots (h'.releaseAll (id :: rest.filterMap Slot.cell?))
      cases hcell : h.cell? id with
      | none =>
        have hcell' : h'.cell? id = none := by rw [hr.cells, hcell, Option.map_none]
        rw [releaseAll_dead hcell']
        refine ih ⟨hr.next, fun x => ?_⟩
        rw [hr.cells]
        by_cases hx : x = id
        · rw [hx, hcell, Option.map_none, Option.map_none]
        · simp [Slot.owns_cell, Ne.symm hx]
      | some cell =>
        -- One reference was there before anything came to hand, so this release frees nothing.
        have hpos := hp.positive id cell hcell
        have hcell' : h'.cell? id =
            some { cell with refs := cell.refs + (1 + holders (rest ++ slots) id) } := by
          rw [hr.cells, hcell, Option.map_some]
          simp
        rw [releaseAll_more hcell' (by dsimp only; omega)]
        refine ih ⟨by simpa [Heap.next, lower, setCell] using hr.next, fun x => ?_⟩
        rw [cell?_lower hcell']
        by_cases hx : x = id
        · rw [hx, hcell, if_pos rfl, Option.map_some]
          dsimp only
          rw [show cell.refs + (1 + holders (rest ++ slots) id) - 1 =
            cell.refs + holders (rest ++ slots) id by omega]
        · rw [if_neg hx, hr.cells]
          simp [Slot.owns_cell, Ne.symm hx]

end Heap
end Enclave
