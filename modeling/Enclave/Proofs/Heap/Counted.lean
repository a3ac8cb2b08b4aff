import Mathlib.Algebra.GroupWithZero.Nat
import Mathlib.Tactic.Common
import Enclave.Heap.Store

/-! # Counted heaps

A heap is counted when every cell's count is the number of slots that hold a reference to it: slots
in the payloads of live cells, and slots outside the heap. The slots outside enter as a number for
each cell. Allocation, retention and exchange of a payload keep a heap counted, and say what they
take from outside or add to it.
-/
namespace Enclave

/-- How many references to a cell a slot holds. -/
def Slot.owns (s : Slot) (id : CellId) : Nat :=
  if s.cell? = some id then 1 else 0

/-- How many of the slots hold a reference to a cell. -/
def holders (slots : List Slot) (id : CellId) : Nat :=
  (slots.map (·.owns id)).sum

@[simp] theorem Slot.owns_scalar (v : Scalar) (id : CellId) : (Slot.scalar v).owns id = 0 := rfl

@[simp] theorem Slot.owns_null (id : CellId) : Slot.null.owns id = 0 := rfl

@[simp] theorem Slot.owns_self (id : CellId) : (Slot.cell id).owns id = 1 := by
  simp [owns, cell?]

theorem Slot.owns_cell (i id : CellId) : (Slot.cell i).owns id = if i = id then 1 else 0 := by
  simp [owns, cell?]

@[simp] theorem holders_nil (id : CellId) : holders [] id = 0 := rfl

@[simp] theorem holders_cons (s : Slot) (slots : List Slot) (id : CellId) :
    holders (s :: slots) id = s.owns id + holders slots id := rfl

@[simp] theorem holders_append (xs ys : List Slot) (id : CellId) :
    holders (xs ++ ys) id = holders xs id + holders ys id := by
  simp [holders]

@[simp] theorem holders_reverse (xs : List Slot) (id : CellId) :
    holders xs.reverse id = holders xs id := by
  simp [holders]

theorem holders_take_drop (n : Nat) (xs : List Slot) (id : CellId) :
    holders (xs.take n) id + holders (xs.drop n) id = holders xs id := by
  rw [← holders_append, List.take_append_drop]

theorem holders_set (xs : List Slot) {i : Nat} (hi : i < xs.length) (s : Slot) (id : CellId) :
    holders (xs.set i s) id + xs[i].owns id = holders xs id + s.owns id := by
  have := Heap.foldr_add_set (xs.map (·.owns id)) i (s.owns id) (by simpa using hi)
  simp only [List.getElem_map] at this
  rw [← List.map_set] at this
  exact this

theorem holders_flatMap {α : Type} (f : α → List Slot) (xs : List α) (id : CellId) :
    holders (xs.flatMap f) id = (xs.map fun x => holders (f x) id).sum := by
  induction xs with
  | nil => rfl
  | cons x rest ih => simp [List.flatMap_cons, ih]

/-- The cells that slots name, counted one by one. -/
theorem count_filterMap_cell? (slots : List Slot) (id : CellId) :
    (slots.filterMap Slot.cell?).count id = holders slots id := by
  induction slots with
  | nil => rfl
  | cons s rest ih =>
    cases s with
    | scalar v => simpa [List.filterMap_cons, Slot.cell?] using ih
    | cell i =>
      by_cases h : i = id
      · simp [Slot.cell?, h, ih, Nat.add_comm]
      · simp [Slot.cell?, Slot.owns_cell, h, ih]

theorem holders_pos {slots : List Slot} {id : CellId} :
    0 < holders slots id ↔ Slot.cell id ∈ slots := by
  induction slots with
  | nil => simp
  | cons s rest ih =>
    cases s with
    | scalar v => simpa using ih
    | cell i =>
      by_cases h : i = id
      · simp [h, Nat.add_comm]
      · simpa [Slot.owns_cell, h, Ne.symm h] using ih

namespace Heap

/-! ## Cells after an operation -/

theorem cell?_setCell {h : Heap} {id : CellId} {cell : Cell} (hc : h.cell? id = some cell)
    (new : Option Cell) (x : CellId) :
    (h.setCell id new).cell? x = if x = id then new else h.cell? x := by
  have hid : id < h.cells.size := lt_next_of_cell? hc
  by_cases hx : x = id
  · subst hx
    simp [setCell, cell?, hid]
  · simp [setCell, cell?, hx, Array.getElem?_setIfInBounds_ne (Ne.symm hx)]

theorem cell?_alloc (h : Heap) (p : Payload) (x : CellId) :
    (h.alloc p).cell? x = if x = h.next then some ⟨1, p.kind, p⟩ else h.cell? x := by
  by_cases hx : x = h.next
  · simp [alloc, cell?, next, hx]
  · simp only [next] at hx
    simp [alloc, cell?, next, hx, Array.getElem?_push]

theorem cell?_setPayload {h : Heap} {id : CellId} {cell : Cell} (hcell : h.cell? id = some cell)
    (q : Payload) (x : CellId) :
    (h.setPayload id q).cell? x = if x = id then some { cell with payload := q } else h.cell? x := by
  simp only [setPayload, hcell]
  exact cell?_setCell hcell _ x

theorem payload?_setPayload {h : Heap} {id : CellId} {p : Payload} (hp : h.payload? id = some p)
    (q : Payload) (x : CellId) :
    (h.setPayload id q).payload? x = if x = id then some q else h.payload? x := by
  obtain ⟨cell, hcell, -⟩ := Option.map_eq_some_iff.mp hp
  simp only [payload?, cell?_setPayload hcell]
  split <;> rfl

theorem payload?_alloc (h : Heap) (p : Payload) (x : CellId) :
    (h.alloc p).payload? x = if x = h.next then some p else h.payload? x := by
  simp only [payload?, cell?_alloc]
  split <;> rfl

theorem cell?_next (h : Heap) : h.cell? h.next = none := by
  simp [cell?, next]

theorem total_eq_sum (f : Option Cell → Nat) (h : Heap) :
    h.total f = (h.cells.toList.map f).sum := rfl

theorem total_alloc (f : Option Cell → Nat) (h : Heap) (p : Payload) :
    (h.alloc p).total f = h.total f + f (some ⟨1, p.kind, p⟩) := by
  simp [total_eq_sum, alloc]

@[simp] theorem next_alloc (h : Heap) (p : Payload) : (h.alloc p).next = h.next + 1 := by
  simp [alloc, next]

theorem isLive_iff {h : Heap} {id : CellId} : h.isLive id = true ↔ ∃ cell, h.cell? id = some cell :=
  Option.isSome_iff_exists

theorem isLive_of_payload? {h : Heap} {id : CellId} {p : Payload} (hp : h.payload? id = some p) :
    h.isLive id = true := by
  obtain ⟨cell, hcell, -⟩ := Option.map_eq_some_iff.mp hp
  exact isLive_iff.mpr ⟨cell, hcell⟩

theorem isLive_of_kind? {h : Heap} {id : CellId} {kind : Kind} (hk : h.kind? id = some kind) :
    h.isLive id = true := by
  obtain ⟨cell, hcell, -⟩ := Option.map_eq_some_iff.mp hk
  exact isLive_iff.mpr ⟨cell, hcell⟩

theorem exists_payload? {h : Heap} {id : CellId} (hl : h.isLive id = true) :
    ∃ p, h.payload? id = some p := by
  obtain ⟨cell, hcell⟩ := isLive_iff.mp hl
  exact ⟨cell.payload, congrArg (Option.map _) hcell⟩

theorem lt_next_of_payload? {h : Heap} {id : CellId} {p : Payload} (hp : h.payload? id = some p) :
    id < h.next := by
  obtain ⟨cell, hcell, -⟩ := Option.map_eq_some_iff.mp hp
  exact lt_next_of_cell? hcell

/-! ## Counts -/

/-- The count of a cell; a number that names no live cell counts nothing. -/
def refs (h : Heap) (id : CellId) : Nat :=
  ((h.cell? id).map (·.refs)).getD 0

def cellSlots : Option Cell → List Slot
  | some cell => cell.payload.slots
  | none => []

theorem cellSlots_some (cell : Cell) : cellSlots (some cell) = cell.payload.slots := rfl

theorem cellSlots_none : cellSlots none = [] := rfl

/-- Every slot in the payload of a live cell. -/
def payloadSlots (h : Heap) : List Slot :=
  h.cells.toList.flatMap cellSlots

/-- How many slots in payloads hold a reference to a cell. -/
def held (h : Heap) (id : CellId) : Nat :=
  h.total fun c => holders (cellSlots c) id

theorem holders_payloadSlots (h : Heap) (id : CellId) : holders h.payloadSlots id = h.held id :=
  holders_flatMap cellSlots h.cells.toList id

def presence : Option Cell → Nat
  | some _ => 1
  | none => 0

def cellRefs : Option Cell → Nat
  | some cell => cell.refs
  | none => 0

/-- Every count is the number of holders, of which `out` says how many there are outside the heap,
and no cell is alive without a holder. -/
structure Exact (h : Heap) (out : CellId → Nat) : Prop where
  exact : ∀ id, h.refs id = h.held id + out id
  positive : ∀ id cell, h.cell? id = some cell → 0 < cell.refs

/-- Counts are exact, a cell's kind is that of its payload, and the tally accounts for all live cells
and all their references. -/
structure Counted (h : Heap) (out : CellId → Nat) : Prop where
  exact : ∀ id, h.refs id = h.held id + out id
  positive : ∀ id cell, h.cell? id = some cell → 0 < cell.refs
  kinds : ∀ id cell, h.cell? id = some cell → cell.kind = cell.payload.kind
  cells : h.tally.allocated = h.tally.freed + h.total presence
  references : h.tally.allocated + h.tally.retains = h.tally.releases + h.total cellRefs

variable {h : Heap} {out out' : CellId → Nat} {id : CellId} {cell : Cell} {p : Payload}

theorem Exact.congr (hc : h.Exact out) (ho : ∀ id, out id = out' id) : h.Exact out' := by
  obtain rfl : out = out' := funext ho
  exact hc

theorem Counted.congr (hc : h.Counted out) (ho : ∀ id, out id = out' id) : h.Counted out' := by
  obtain rfl : out = out' := funext ho
  exact hc

theorem Counted.exactly (hc : h.Counted out) : h.Exact out :=
  ⟨hc.exact, hc.positive⟩

/-- Whatever has a holder is alive. -/
theorem Exact.isLive_of_holder (hc : h.Exact out) (hid : 0 < h.held id + out id) :
    h.isLive id = true := by
  rw [← hc.exact] at hid
  cases hl : h.cell? id with
  | none => simp [refs, hl] at hid
  | some cell => simp [isLive, hl]

theorem Counted.isLive_of_holder (hc : h.Counted out) (hid : 0 < h.held id + out id) :
    h.isLive id = true :=
  hc.exactly.isLive_of_holder hid

/-- Whatever is alive has a holder. -/
theorem Exact.holder_of_isLive (hc : h.Exact out) (hl : h.isLive id = true) :
    0 < h.held id + out id := by
  obtain ⟨cell, hcell⟩ := isLive_iff.mp hl
  have := hc.positive id cell hcell
  rw [← hc.exact]
  simpa [refs, hcell] using this

theorem Counted.holder_of_isLive (hc : h.Counted out) (hl : h.isLive id = true) :
    0 < h.held id + out id :=
  hc.exactly.holder_of_isLive hl

theorem counted_empty : empty.Counted fun _ => 0 := by
  refine ⟨fun id => ?_, fun id cell hl => ?_, fun id cell hl => ?_, rfl, rfl⟩
  · simp [refs, cell?, held, total, empty]
  all_goals simp [cell?, empty] at hl

/-- A payload that takes over slots from outside becomes a cell with one owner outside. -/
theorem Counted.alloc (hc : h.Counted fun id => holders p.slots id + out id) :
    (h.alloc p).Counted fun id => (Slot.cell h.next).owns id + out id := by
  refine ⟨fun id => ?_, fun id cell hl => ?_, fun id cell hl => ?_, ?_, ?_⟩
  · have he := hc.exact id
    rw [held, total_alloc]
    simp only [refs, cell?_alloc, Slot.owns_cell, cellSlots_some]
    by_cases hid : id = h.next
    · subst hid
      simp only [refs, cell?_next, held, Option.map_none, Option.getD_none] at he
      simp only [if_true, Option.map_some, Option.getD_some]
      omega
    · simp only [refs, held] at he
      simp only [hid, Ne.symm hid, if_false]
      omega
  · rw [cell?_alloc] at hl
    split at hl
    · cases hl
      exact Nat.one_pos
    · exact hc.positive id cell hl
  · rw [cell?_alloc] at hl
    split at hl
    · cases hl
      rfl
    · exact hc.kinds id cell hl
  · have := hc.cells
    rw [total_alloc]
    simp only [Heap.alloc, presence]
    omega
  · have := hc.references
    rw [total_alloc]
    simp only [Heap.alloc, cellRefs]
    omega

/-- A live cell that changes its count and its payload's slots leaves the outside with as many
holders as make up for it. -/
theorem Exact.setCell (hc : h.Exact out) (hcell : h.cell? id = some cell) (new : Cell)
    (tally : Tally) (hpos : 0 < new.refs)
    (ho : ∀ x, (if x = id then new.refs else 0) + holders cell.payload.slots x + out x =
      (if x = id then cell.refs else 0) + holders new.payload.slots x + out' x) :
    ({ h.setCell id (some new) with tally := tally } : Heap).Exact out' := by
  refine ⟨fun x => ?_, fun x c hl => ?_⟩
  · have he := hc.exact x
    have ht := total_setCell (fun c => holders (cellSlots c) x) h (some new) hcell
    have hx := ho x
    simp only [held, refs, cellSlots_some] at he ht ⊢
    change ((((h.setCell id (some new)).cell? x).map (·.refs)).getD 0 =
      (h.setCell id (some new)).total (fun c => holders (cellSlots c) x) + out' x)
    rw [cell?_setCell hcell]
    by_cases hid : x = id
    · subst hid
      simp only [hcell, if_true, Option.map_some, Option.getD_some] at he hx ⊢
      omega
    · simp only [hid, if_false] at hx ⊢
      omega
  · change (h.setCell id (some new)).cell? x = some c at hl
    rw [cell?_setCell hcell] at hl
    split at hl
    · cases hl
      exact hpos
    · exact hc.positive x c hl

/-- The tally has to follow the change of the count. -/
theorem Counted.setCell (hc : h.Counted out) (hcell : h.cell? id = some cell) (new : Cell)
    (tally : Tally) (hkind : new.kind = new.payload.kind) (hpos : 0 < new.refs)
    (ho : ∀ x, (if x = id then new.refs else 0) + holders cell.payload.slots x + out x =
      (if x = id then cell.refs else 0) + holders new.payload.slots x + out' x)
    (hcells : tally.allocated = h.tally.allocated ∧ tally.freed = h.tally.freed)
    (hrefs : tally.retains + h.tally.releases + cell.refs =
      h.tally.retains + tally.releases + new.refs) :
    ({ h.setCell id (some new) with tally := tally } : Heap).Counted out' := by
  have hexact := hc.exactly.setCell hcell new tally hpos ho
  refine ⟨hexact.exact, hexact.positive, fun x c hl => ?_, ?_, ?_⟩
  · change (h.setCell id (some new)).cell? x = some c at hl
    rw [cell?_setCell hcell] at hl
    split at hl
    · cases hl
      exact hkind
    · exact hc.kinds x c hl
  · have ht := total_setCell presence h (some new) hcell
    have := hc.cells
    simp only [presence] at ht
    change tally.allocated = tally.freed + (h.setCell id (some new)).total presence
    omega
  · have ht := total_setCell cellRefs h (some new) hcell
    have := hc.references
    simp only [cellRefs] at ht
    change tally.allocated + tally.retains =
      tally.releases + (h.setCell id (some new)).total cellRefs
    omega

theorem Counted.retain (hc : h.Counted out) (hl : h.isLive id = true) :
    (h.retain id).Counted fun x => (Slot.cell id).owns x + out x := by
  obtain ⟨cell, hcell⟩ := isLive_iff.mp hl
  simp only [Heap.retain, hcell]
  refine hc.setCell hcell { cell with refs := cell.refs + 1 } _ (hc.kinds id cell hcell)
    (Nat.succ_pos _) (fun x => ?_) ⟨rfl, rfl⟩ ?_
  · by_cases hx : x = id
    · subst hx
      simp only [if_true, Slot.owns_self]
      omega
    · simp only [hx, Ne.symm hx, if_false, Slot.owns_cell]
      omega
  · dsimp only
    omega

/-- The slots that a new payload has more than the old one come from outside, and the others go
there. -/
theorem Counted.setPayload {q : Payload} (hc : h.Counted out) (hp : h.payload? id = some p)
    (hkind : q.kind = p.kind)
    (ho : ∀ x, holders p.slots x + out x = holders q.slots x + out' x) :
    (h.setPayload id q).Counted out' := by
  obtain ⟨cell, hcell, rfl⟩ := Option.map_eq_some_iff.mp hp
  simp only [Heap.setPayload, hcell]
  have hk := hc.kinds id cell hcell
  refine hc.setCell hcell { cell with payload := q } h.tally (hk.trans hkind.symm)
    (hc.positive id cell hcell) (fun x => ?_) ⟨rfl, rfl⟩ rfl
  have := ho x
  dsimp only
  omega

/-! ## Balance -/

theorem total_eq_zero_iff {f : Option Cell → Nat} (h : Heap) (hnone : f none = 0)
    (hsome : ∀ id cell, h.cell? id = some cell → 0 < f (some cell)) :
    h.total f = 0 ↔ ∀ id, h.cell? id = none := by
  rw [total_eq_sum, List.sum_eq_zero_iff_forall_eq_nat, List.forall_mem_map]
  constructor
  · intro hz id
    cases hcell : h.cell? id with
    | none => rfl
    | some cell =>
      have hget : h.cells[id]? = some (some cell) := Option.join_eq_some_iff.mp hcell
      have := hz _ (Array.mem_toList_iff.mpr (Array.mem_of_getElem? hget))
      have := hsome id cell hcell
      omega
  · intro hz c hc
    obtain ⟨id, hid⟩ := List.mem_iff_getElem?.mp hc
    have := hz id
    rw [Array.getElem?_toList] at hid
    rw [cell?, hid, Option.join_some] at this
    rw [this, hnone]

theorem total_presence_eq_zero (h : Heap) :
    h.total presence = 0 ↔ ∀ id, h.isLive id = false := by
  simpa [isLive] using total_eq_zero_iff (f := presence) h rfl fun _ _ _ => Nat.one_pos

theorem Counted.total_refs_eq_zero (hc : h.Counted out) :
    h.total cellRefs = 0 ↔ ∀ id, h.isLive id = false := by
  simpa [isLive] using total_eq_zero_iff (f := cellRefs) h rfl hc.positive

/-- The counters are balanced when no cell is alive. -/
theorem Counted.isBalanced_iff (hc : h.Counted out) :
    h.tally.isBalanced = true ↔ ∀ id, h.isLive id = false := by
  have hcells := hc.cells
  have hreferences := hc.references
  rw [Tally.isBalanced, Bool.and_eq_true, beq_iff_eq, beq_iff_eq]
  constructor
  · rintro ⟨-, hfreed⟩
    exact h.total_presence_eq_zero.mp (by omega)
  · intro hdead
    have := h.total_presence_eq_zero.mpr hdead
    have := hc.total_refs_eq_zero.mpr hdead
    omega

/-! ## Order of heaps -/

/-- A heap comes later than another one: numbers are only added, and a cell that is still alive has
kept its kind. -/
structure Later (h h' : Heap) : Prop where
  next : h.next ≤ h'.next
  kind : ∀ id k, id < h.next → h'.kind? id = some k → h.kind? id = some k

theorem Later.refl (h : Heap) : h.Later h :=
  ⟨Nat.le_refl _, fun _ _ _ hk => hk⟩

theorem Later.trans {h₁ h₂ h₃ : Heap} (h₁₂ : h₁.Later h₂) (h₂₃ : h₂.Later h₃) : h₁.Later h₃ :=
  ⟨Nat.le_trans h₁₂.next h₂₃.next, fun id k hid hk =>
    h₁₂.kind id k hid (h₂₃.kind id k (Nat.lt_of_lt_of_le hid h₁₂.next) hk)⟩

/-- What is alive in both of two heaps has one kind. -/
theorem Later.kind?_eq {h' : Heap} (hl : h.Later h') (hlive : h.isLive id = true)
    (hlive' : h'.isLive id = true) : h'.kind? id = h.kind? id := by
  obtain ⟨cell, hcell⟩ := isLive_iff.mp hlive
  obtain ⟨cell', hcell'⟩ := isLive_iff.mp hlive'
  have hk : h'.kind? id = some cell'.kind := by simp [kind?, hcell']
  rw [hk, hl.kind id _ (lt_next_of_cell? hcell) hk]

theorem later_alloc (h : Heap) (p : Payload) : h.Later (h.alloc p) := by
  refine ⟨by simp, fun id k hid hk => ?_⟩
  have hne : id ≠ h.next := Nat.ne_of_lt hid
  simpa [kind?, cell?_alloc, hne] using hk

theorem later_setCell (hcell : h.cell? id = some cell) (new : Cell) (hk : new.kind = cell.kind)
    (tally : Tally) : h.Later { h.setCell id (some new) with tally := tally } := by
  refine ⟨by simp [Heap.next, setCell], fun x k _ hx => ?_⟩
  change ((h.setCell id (some new)).cell? x).map (·.kind) = some k at hx
  rw [cell?_setCell hcell] at hx
  split at hx
  · rename_i he
    subst he
    simpa [kind?, hcell, hk] using hx
  · exact hx

theorem later_retain (h : Heap) (id : CellId) : h.Later (h.retain id) := by
  unfold Heap.retain
  split
  · rename_i cell hcell
    exact later_setCell hcell { cell with refs := cell.refs + 1 } rfl _
  · exact Later.refl h

theorem later_setPayload (h : Heap) (id : CellId) (q : Payload) : h.Later (h.setPayload id q) := by
  unfold Heap.setPayload
  split
  · rename_i cell hcell
    exact later_setCell hcell { cell with payload := q } rfl h.tally
  · exact Later.refl h

end Heap
end Enclave
