import Enclave.Heap.Payload

/-!
# The counted heap

Cells with a reference count, a kind fixed at allocation and a payload. Dropping the last
reference reclaims the cell and drops every reference its payload holds. The cascade ends because
each of its steps uses up a counted reference.
-/
namespace Enclave

structure Cell where
  refs : Nat
  kind : Kind
  payload : Payload

/-- What the heap has done so far. The reference that a cell is created with counts as allocated
and not as retained. -/
structure Tally where
  allocated : Nat
  freed : Nat
  retains : Nat
  releases : Nat
  deriving DecidableEq, Repr

namespace Tally

def zero : Tally := ⟨0, 0, 0, 0⟩

def live (t : Tally) : Nat :=
  t.allocated - t.freed

def since (t earlier : Tally) : Tally :=
  ⟨t.allocated - earlier.allocated, t.freed - earlier.freed, t.retains - earlier.retains,
    t.releases - earlier.releases⟩

/-- Every reference ever taken has been dropped and every cell reclaimed. -/
def isBalanced (t : Tally) : Bool :=
  t.allocated + t.retains == t.releases && t.allocated == t.freed

end Tally

/-- Cells by number; a reclaimed cell leaves its number empty for good. -/
structure Heap where
  cells : Array (Option Cell)
  tally : Tally

namespace Heap

def empty : Heap := ⟨#[], Tally.zero⟩

@[inline]
def cell? (h : Heap) (id : CellId) : Option Cell :=
  h.cells[id]?.join

def payload? (h : Heap) (id : CellId) : Option Payload :=
  (h.cell? id).map (·.payload)

def kind? (h : Heap) (id : CellId) : Option Kind :=
  (h.cell? id).map (·.kind)

def isLive (h : Heap) (id : CellId) : Bool :=
  (h.cell? id).isSome

/-- A new cell with one reference, which belongs to the caller. -/
def alloc (h : Heap) (p : Payload) : Heap :=
  { cells := h.cells.push (some ⟨1, p.kind, p⟩)
    tally := { h.tally with allocated := h.tally.allocated + 1 } }

/-- The number that the next allocation gets. -/
def next (h : Heap) : CellId :=
  h.cells.size

@[inline]
def setCell (h : Heap) (id : CellId) (cell : Option Cell) : Heap :=
  { h with cells := h.cells.setIfInBounds id cell }

def setPayload (h : Heap) (id : CellId) (p : Payload) : Heap :=
  match h.cell? id with
  | some cell => h.setCell id (some { cell with payload := p })
  | none => h

/-- One more reference to a live cell. -/
def retain (h : Heap) (id : CellId) : Heap :=
  match h.cell? id with
  | some cell =>
    { h.setCell id (some { cell with refs := cell.refs + 1 }) with
      tally := { h.tally with retains := h.tally.retains + 1 } }
  | none => h

/-- A quantity summed over all numbers ever given out. -/
def total (f : Option Cell → Nat) (h : Heap) : Nat :=
  (h.cells.toList.map f).foldr (· + ·) 0

def cellWeight : Option Cell → Nat
  | some cell => cell.refs + 1
  | none => 0

/-- What the cascade uses up: the counts of all live cells, and the cells. -/
def weight (h : Heap) : Nat :=
  h.total cellWeight

theorem foldr_add_set (l : List Nat) (i x : Nat) (hi : i < l.length) :
    (l.set i x).foldr (· + ·) 0 + l[i] = l.foldr (· + ·) 0 + x := by
  induction l generalizing i with
  | nil => cases hi
  | cons a rest ih =>
    cases i with
    | zero =>
      simp only [List.set_cons_zero, List.foldr_cons, List.getElem_cons_zero]
      omega
    | succ j =>
      have := ih j (Nat.lt_of_succ_lt_succ hi)
      simp only [List.set_cons_succ, List.foldr_cons, List.getElem_cons_succ]
      omega

/-- A sum over an array of which one filled place gets something new. -/
theorem foldr_add_setIfInBounds {α : Type} (f : Option α → Nat) (a : Array (Option α)) {i : Nat}
    {old : α} (new : Option α) (ho : a[i]?.join = some old) :
    ((a.setIfInBounds i new).toList.map f).foldr (· + ·) 0 + f (some old) =
      (a.toList.map f).foldr (· + ·) 0 + f new := by
  obtain ⟨hi, hget⟩ := Array.getElem?_eq_some_iff.mp (Option.join_eq_some_iff.mp ho)
  have := foldr_add_set (a.toList.map f) i (f new) (by simpa using hi)
  simp only [List.getElem_map, Array.getElem_toList, hget] at this
  simp only [Array.toList_setIfInBounds, List.map_set]
  exact this

theorem lt_next_of_cell? {h : Heap} {id : CellId} {cell : Cell} (hc : h.cell? id = some cell) :
    id < h.next :=
  (Array.getElem?_eq_some_iff.mp (Option.join_eq_some_iff.mp hc)).1

theorem total_setCell (f : Option Cell → Nat) (h : Heap) {id : CellId} {cell : Cell}
    (new : Option Cell) (hc : h.cell? id = some cell) :
    (h.setCell id new).total f + f (some cell) = h.total f + f new :=
  foldr_add_setIfInBounds f h.cells new hc

theorem weight_setCell (h : Heap) {id : CellId} {cell : Cell} (new : Option Cell)
    (hc : h.cell? id = some cell) :
    (h.setCell id new).weight + (cell.refs + 1) = h.weight + cellWeight new :=
  total_setCell cellWeight h new hc

/-- Drops references one after the other, with all that follows from it. A number that names no
live cell is passed over. -/
def releaseAll (h : Heap) (pending : List CellId) : Heap :=
  match pending with
  | [] => h
  | id :: rest =>
    match hc : h.cell? id with
    | none => releaseAll h rest
    | some cell =>
      if cell.refs ≤ 1 then
        have := weight_setCell h none hc
        releaseAll
          { h.setCell id none with
            tally := { h.tally with
              releases := h.tally.releases + 1
              freed := h.tally.freed + 1 } }
          (cell.payload.references ++ rest)
      else
        have := weight_setCell h (some { cell with refs := cell.refs - 1 }) hc
        releaseAll
          { h.setCell id (some { cell with refs := cell.refs - 1 }) with
            tally := { h.tally with releases := h.tally.releases + 1 } }
          rest
termination_by (h.weight, pending.length)
decreasing_by
  · apply Prod.Lex.right
    simp
  · apply Prod.Lex.left
    simp only [weight, total, setCell, cellWeight] at this ⊢
    omega
  · apply Prod.Lex.left
    simp only [weight, total, setCell, cellWeight] at this ⊢
    omega

end Heap
end Enclave
