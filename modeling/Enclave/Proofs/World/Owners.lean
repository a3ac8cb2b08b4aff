import Enclave.Proofs.Heap.Release

/-! # Owners

All owners outside the heap, and how many references to a cell they hold. A value put into a table
takes the place of an old one, and an end of a scope gives up what the scope held.
-/
namespace Enclave

namespace Table

variable {α : Type}

/-- A value goes in, and the old one, or null, comes out. -/
theorem holders_values_put (t : Table Slot) (key : String) (s : Slot) (id : CellId) :
    ((get? t key).getD .null).owns id + holders (values (put t key s)) id =
      s.owns id + holders t.values id := by
  induction t with
  | nil => simp [put, get?, values]
  | cons entry rest ih =>
    obtain ⟨k, old⟩ := entry
    by_cases hk : k = key
    · simp only [put, get?, values, hk, if_true, Option.getD_some, List.map_cons, holders_cons]
      omega
    · simp only [values] at ih
      simp only [put, get?, values, hk, if_false, List.map_cons, holders_cons]
      omega

theorem mem_values_of_get? {t : Table α} {key : String} {v : α}
    (h : t.get? key = some v) : v ∈ t.values := by
  induction t with
  | nil => cases h
  | cons entry rest ih =>
    obtain ⟨k, w⟩ := entry
    by_cases hk : k = key
    · simp only [Table.get?, hk, if_true, Option.some.injEq] at h
      simp [Table.values, h]
    · simp only [Table.get?, hk, if_false] at h
      exact List.mem_cons_of_mem _ (ih h)

/-- The slots of host values in a table. -/
def slots (t : Table Value) : Table Slot :=
  t.map fun entry => (entry.1, entry.2.slot)

theorem values_slots (t : Table Value) : t.slots.values = t.values.map Value.slot := by
  simp [slots, values]

theorem get?_slots (t : Table Value) (key : String) :
    get? t.slots key = (get? t key).map Value.slot := by
  induction t with
  | nil => rfl
  | cons entry rest ih =>
    obtain ⟨k, v⟩ := entry
    simp only [slots, List.map_cons, get?] at ih ⊢
    split
    · rfl
    · exact ih

theorem slots_put (t : Table Value) (key : String) (v : Value) :
    slots (put t key v) = put t.slots key v.slot := by
  induction t with
  | nil => rfl
  | cons entry rest ih =>
    obtain ⟨k, w⟩ := entry
    simp only [slots, List.map_cons, put] at ih ⊢
    split
    · rfl
    · simp only [List.map_cons, ih]

theorem holders_slots_put (t : Table Value) (key : String) (v : Value) (id : CellId) :
    (((get? t key).map Value.slot).getD .null).owns id +
        holders ((values (put t key v)).map Value.slot) id =
      v.slot.owns id + holders (t.values.map Value.slot) id := by
  rw [← values_slots, ← values_slots, slots_put, ← get?_slots]
  exact holders_values_put t.slots key v.slot id

theorem holders_slots_erase {t : Table Value} {key : String} {v : Value}
    (hv : get? t key = some v) (id : CellId) :
    v.slot.owns id + holders ((values (erase t key)).map Value.slot) id =
      holders (t.values.map Value.slot) id := by
  induction t with
  | nil => cases hv
  | cons entry rest ih =>
    obtain ⟨k, w⟩ := entry
    by_cases hk : k = key
    · simp only [get?, hk, if_true, Option.some.injEq] at hv
      simp [erase, values, hk, hv]
    · simp only [get?, hk, if_false] at hv
      have := ih hv
      simp only [values] at this
      simp only [erase, values, hk, if_false, List.map_cons, holders_cons]
      omega

end Table

namespace Value

@[simp] theorem slot_ofSlot (kind : Kind) (s : Slot) : (ofSlot kind s).slot = s := by
  cases s <;> rfl

theorem slots_zipWith_ofSlot {kinds : List Kind} {slots : List Slot}
    (hl : slots.length ≤ kinds.length) : (kinds.zipWith ofSlot slots).map slot = slots := by
  induction slots generalizing kinds with
  | nil => simp
  | cons s rest ih =>
    cases kinds with
    | nil => simp at hl
    | cons kind kinds => simp [ih (Nat.le_of_succ_le_succ hl)]

end Value

/-- An exchange with a payload puts one slot in and takes one slot out. -/
def Payload.Swaps (f : Payload → Slot → Option (Payload × Slot)) : Prop :=
  ∀ p s q old, f p s = some (q, old) → q.kind = p.kind ∧
    ∀ id, old.owns id + holders q.slots id = s.owns id + holders p.slots id

def scopeSlots : Option (Table Slot) → List Slot
  | some t => t.values
  | none => []

namespace World

/-- The slots of all globals. -/
def globals (w : World) : List Slot :=
  w.scopes.toList.flatMap scopeSlots

/-- What closures captured. -/
def captured (w : World) : List Slot :=
  w.engine.bindings.toList.flatMap Binding.slots

def registered (w : World) : List Slot :=
  w.registers.values.map Value.slot

/-- The slots of all owners outside the heap. -/
def external (w : World) : List Slot :=
  w.globals ++ w.captured ++ w.registered ++ w.kept ++ w.held ++ w.stack

/-- How many references there are outside the heap, with those that were lost. -/
def outside (w : World) (id : CellId) : Nat :=
  holders w.external id + holders w.lost id

variable {w : World}

theorem outside_eq (w : World) (id : CellId) :
    w.outside id = holders w.globals id + holders w.captured id + holders w.registered id +
      holders w.kept id + holders w.held id + holders w.stack id + holders w.lost id := by
  simp only [outside, external, holders_append]

/-- What is in hand, and what is not. -/
theorem outside_stack (w : World) (stack : List Slot) (id : CellId) :
    { w with stack := stack }.outside id + holders w.stack id =
      w.outside id + holders stack id := by
  simp only [outside_eq, globals, captured, registered]
  omega

/-- Whatever is owned outside the heap is alive. -/
theorem isLive_of_external (hc : w.heap.Counted w.outside) {id : CellId}
    (hid : Slot.cell id ∈ w.external) : w.heap.isLive id = true := by
  refine hc.isLive_of_holder ?_
  have := holders_pos.mpr hid
  simp only [outside]
  omega

theorem isLive_of_stack (hc : w.heap.Counted w.outside) {id : CellId}
    (hid : Slot.cell id ∈ w.stack) : w.heap.isLive id = true :=
  isLive_of_external hc (List.mem_append_right _ hid)

/-! ## Exact counts -/

/-- The slots of all owners: payloads of live cells, globals, values that closures captured,
registers, what the host keeps or holds, and what evaluation and calls in progress have in hand. -/
def owners (w : World) : List Slot :=
  w.heap.payloadSlots ++ w.external

/-- The count of every cell is the number of its owners. -/
def Exact (w : World) : Prop :=
  ∀ id, w.heap.refs id = holders w.owners id

/-- The owners and the lost references of a cell make up its count, and owners name live cells. -/
structure Accounted (w : World) : Prop where
  counts : ∀ id, w.heap.refs id = holders w.owners id + holders w.lost id
  alive : ∀ id, Slot.cell id ∈ w.owners → w.heap.isLive id = true
  held : ∀ id, w.heap.isLive id = true → Slot.cell id ∈ w.owners ∨ Slot.cell id ∈ w.lost
  exact_iff : w.Exact ↔ ∀ id, Slot.cell id ∉ w.lost

theorem accounted_of_counted (hc : w.heap.Counted w.outside) : w.Accounted := by
  have hcounts : ∀ id, w.heap.refs id = holders w.owners id + holders w.lost id := by
    intro id
    rw [hc.exact, owners, holders_append, Heap.holders_payloadSlots, outside]
    omega
  refine ⟨hcounts, fun id hid => hc.isLive_of_holder ?_, fun id hid => ?_, ?_⟩
  · rw [← hc.exact, hcounts]
    exact Nat.lt_of_lt_of_le (holders_pos.mpr hid) (Nat.le_add_right _ _)
  · have hpos := hc.holder_of_isLive hid
    rw [← hc.exact, hcounts] at hpos
    rw [← holders_pos, ← holders_pos]
    omega
  · refine forall_congr' fun id => ?_
    rw [← holders_pos, hcounts]
    omega

/-! ## Scopes -/

/-- The value of a global is owned by its scope. -/
theorem mem_globals {id : ScopeId} {name : String} {s : Slot} (h : w.global? id name = some s) :
    s ∈ w.globals := by
  obtain ⟨table, ht, hs⟩ := Option.bind_eq_some_iff.mp h
  have hget : w.scopes[id]? = some (some table) := Option.join_eq_some_iff.mp ht
  refine List.mem_flatMap.mpr ⟨some table, ?_, Table.mem_values_of_get? hs⟩
  exact Array.mem_toList_iff.mpr (Array.mem_of_getElem? hget)

theorem isLive_of_global (hc : w.heap.Counted w.outside) {scope : ScopeId} {name : String}
    {id : CellId} (h : w.global? scope name = some (.cell id)) : w.heap.isLive id = true :=
  isLive_of_external hc (by simp [external, mem_globals h])

/-- The globals after one scope was replaced. -/
theorem holders_setScope {id : ScopeId} {old : Table Slot} (ho : w.scope? id = some old)
    (new : Option (Table Slot)) (x : CellId) :
    holders (w.setScope id new).globals x + holders old.values x =
      holders w.globals x + holders (scopeSlots new) x := by
  simp only [globals, holders_flatMap]
  exact Heap.foldr_add_setIfInBounds (fun s => holders (scopeSlots s) x) w.scopes new ho

theorem scope?_setScope {id : ScopeId} {old : Table Slot} (ho : w.scope? id = some old)
    (new : Option (Table Slot)) (i : ScopeId) :
    (w.setScope id new).scope? i = if i = id then new else w.scope? i := by
  have hid : id < w.scopes.size :=
    (Array.getElem?_eq_some_iff.mp (Option.join_eq_some_iff.mp ho)).1
  by_cases hi : i = id
  · subst hi
    simp [setScope, scope?, hid]
  · simp [setScope, scope?, hi, Array.getElem?_setIfInBounds_ne (Ne.symm hi)]

@[simp] theorem size_setScope (w : World) (id : ScopeId) (new : Option (Table Slot)) :
    (w.setScope id new).scopes.size = w.scopes.size := by
  simp [setScope]

/-- Only the globals depend on the scopes. -/
theorem outside_setScope {id : ScopeId} {old : Table Slot} (ho : w.scope? id = some old)
    (new : Option (Table Slot)) (x : CellId) :
    (w.setScope id new).outside x + holders old.values x =
      w.outside x + holders (scopeSlots new) x := by
  have hg := holders_setScope ho new x
  rw [outside_eq, outside_eq]
  change _ + holders w.captured x + holders w.registered x + holders w.kept x + holders w.held x +
    holders w.stack x + holders w.lost x + _ = _
  omega

theorem scope?_dropScope (w : World) (id i : ScopeId) :
    (w.dropScope id).scope? i = if i = id then none else w.scope? i := by
  unfold dropScope
  split
  · rename_i old ho
    exact scope?_setScope ho none i
  · rename_i ho
    split
    · rename_i hi
      rw [hi, ho]
    · rfl

/-- The end of a scope drops its values and leaves everything else alone. -/
theorem dropScope_fields (w : World) (id : ScopeId) :
    (w.dropScope id).engine = w.engine ∧ (w.dropScope id).held = w.held ∧
      (w.dropScope id).stack = w.stack ∧ (w.dropScope id).lost = w.lost ∧
      w.heap.Later (w.dropScope id).heap := by
  unfold dropScope
  split
  · exact ⟨rfl, rfl, rfl, rfl, Heap.later_releaseSlots _ _⟩
  · exact ⟨rfl, rfl, rfl, rfl, Heap.Later.refl _⟩

end World
end Enclave
