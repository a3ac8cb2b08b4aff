import Mathlib.Logic.Relation
import Enclave.Proofs.Boundary.Stored
import Enclave.Proofs.World.Change

/-! # Bare worlds

A world is bare when no cell of its heap holds a native function and no access is in progress. A script
in a bare world calls nothing, and all that it does to the world is put together from a few steps. What a
script may do is limited in two ways: some names may be bound that were not, and a member may be given
any value or scalars only.
-/
namespace Enclave

/-- What a script may do in its scope: bind these names, whether they were bound or not, and put values
of any kind into members. -/
structure Allowance where
  scope : ScopeId
  names : String → Prop
  members : Prop

namespace World

/-- No access is in progress, and no cell holds a native function. -/
structure Bare (w : World) : Prop where
  free : w.guards = []
  noFunction : ∀ id f, w.heap.payload? id ≠ some (.function f)

/-- The name is bound in the scope. -/
def Binds (w : World) (scope : ScopeId) (name : String) : Prop :=
  (w.global? scope name).isSome = true

/-- All that a script does to a bare world, one thing at a time. -/
inductive Step (a : Allowance) : World → World → Prop
  | share (w : World) (s : Slot) : Step a w (w.share s)
  | release (w : World) {stack : List Slot} (dropped : List Slot) (h : stack ⊆ w.stack) :
      Step a w { w with heap := w.heap.releaseSlots dropped, stack := stack }
  | install (w : World) {stack : List Slot} {p : Payload} (hp : p.kind ≠ .function)
      (hs : stack ⊆ w.stack) (hslots : p.slots ⊆ w.stack) :
      Step a w (install { w with stack := stack } p)
  | exchangeGlobal (w : World) {name : String}
      (h : a.names name ∨ w.Binds a.scope name) :
      Step a w (w.exchangeGlobal a.scope name)
  | exchangePayload (w : World) (id : CellId) {f : Payload → Slot → Option (Payload × Slot)}
      (hf : Payload.Swaps f) (h : a.members ∨ w.top.cell? = none) :
      Step a w (w.exchangePayload id f)

/-- One world leads to another by some steps. -/
def Leads (a : Allowance) : World → World → Prop :=
  Relation.ReflTransGen (Step a)

variable {a b : Allowance} {w w₁ w' : World} {id : CellId}

namespace Bare

theorem canRead (h : w.Bare) (place : Place) : w.canRead place = true := by
  simp [World.canRead, h.free]

theorem canWrite (h : w.Bare) (place : Place) : w.canWrite place = true := by
  simp [World.canWrite, h.free]

theorem visible? (h : w.Bare) (id : CellId) : w.visible? id = w.heap.payload? id :=
  if_pos (h.canRead _)

/-- A world with the payloads of a bare one, or fewer, is bare. -/
theorem of_payloads (h : w.Bare) (hg : w'.guards = w.guards)
    (hp : ∀ id p, w'.heap.payload? id = some p → w.heap.payload? id = some p) : w'.Bare :=
  ⟨hg.trans h.free, fun id f hf => h.noFunction id f (hp id _ hf)⟩

end Bare

theorem bare_initial (config : Config) : (initial config).Bare :=
  ⟨rfl, fun id f h => by simp [initial, Heap.empty, Heap.payload?, Heap.cell?] at h⟩

/-! ## What every step keeps -/

theorem payload?_install (w : World) (stack : List Slot) (p : Payload) (x : CellId) :
    (install { w with stack := stack } p).heap.payload? x =
      if x = w.heap.next then some p else w.heap.payload? x :=
  Heap.payload?_alloc w.heap p x

/-- An exchange with a payload does nothing, or puts a new payload in its place. -/
theorem exchangePayload_cases (w : World) (id : CellId)
    (f : Payload → Slot → Option (Payload × Slot)) :
    w.exchangePayload id f = w ∨
      ∃ s rest p q old, w.stack = s :: rest ∧ w.heap.payload? id = some p ∧ f p s = some (q, old) ∧
        w.exchangePayload id f =
          { w with heap := w.heap.setPayload id q, stack := old :: rest } := by
  unfold exchangePayload
  split
  · rename_i s rest p hs hp
    split
    · rename_i q old hf
      exact .inr ⟨s, rest, p, q, old, hs, hp, hf, rfl⟩
    · exact .inl rfl
  · exact .inl rfl

theorem Step.bare (h : Step a w w') (hw : w.Bare) : w'.Bare := by
  cases h with
  | share s =>
    rw [share_eq]
    exact hw.of_payloads rfl fun id p hp => (Heap.payload?_retainSlot _ _ _).symm.trans hp
  | release dropped _ => exact hw.of_payloads rfl fun id p hp => Heap.payload?_of_releaseAll hp
  | install hp _ _ =>
    refine ⟨hw.free, fun id f hf => ?_⟩
    rw [payload?_install] at hf
    split at hf
    · cases hf
      exact hp rfl
    · exact hw.noFunction id f hf
  | exchangeGlobal _ =>
    refine hw.of_payloads ((Change.exchangeGlobal a.scope _).guards w) fun id p hp => ?_
    rwa [heap_exchangeGlobal] at hp
  | @exchangePayload id f hf _ =>
    rcases w.exchangePayload_cases id f with h | ⟨s, rest, p, q, old, -, hp, hq, h⟩
    · rwa [h]
    · rw [h]
      refine ⟨hw.free, fun x g hg => ?_⟩
      rw [Heap.payload?_setPayload hp] at hg
      split at hg
      · obtain rfl := Option.some.inj hg
        have hkind := (hf p s _ old hq).1
        cases p with
        | function g => exact hw.noFunction id g hp
        | array | object | classDesc | task => cases hkind
      · exact hw.noFunction x g hg

/-- What every step keeps is kept all the way. -/
theorem Leads.keeps {P : World → Prop} (h : Leads a w w')
    (hstep : ∀ w w', Step a w w' → P w → P w') (hw : P w) : P w' := by
  induction h with
  | refl => exact hw
  | tail _ hs ih => exact hstep _ _ hs ih

theorem Leads.bare (h : Leads a w w') (hw : w.Bare) : w'.Bare :=
  h.keeps (fun _ _ hs => hs.bare) hw

theorem Leads.refl (w : World) : Leads a w w :=
  Relation.ReflTransGen.refl

theorem Leads.trans (h : Leads a w w₁) (h' : Leads a w₁ w') : Leads a w w' :=
  Relation.ReflTransGen.trans h h'

/-! ## Names -/

theorem scope?_exchangeGlobal {s : Slot} {rest : List Slot} {table : Table Slot} {scope : ScopeId}
    (hs : w.stack = s :: rest) (ht : w.scope? scope = some table) (name : String) :
    (w.exchangeGlobal scope name).scope? scope = some (table.put name s) := by
  simp only [exchangeGlobal, hs, ht]
  change (w.setScope scope _).scope? scope = _
  rw [scope?_setScope ht, if_pos rfl]

/-- An exchange binds its name, if there is an entry to be exchanged, and no other one. -/
theorem binds_exchangeGlobal {s : Slot} {rest : List Slot} {table : Table Slot} {scope : ScopeId}
    (hs : w.stack = s :: rest) (ht : w.scope? scope = some table) (name x : String) :
    (w.exchangeGlobal scope name).Binds scope x ↔ x = name ∨ w.Binds scope x := by
  have hput : (w.exchangeGlobal scope name).global? scope x = (table.put name s).get? x := by
    rw [global?, scope?_exchangeGlobal hs ht, Option.bind_some]
  have hget : w.global? scope x = table.get? x := by rw [global?, ht, Option.bind_some]
  rw [Binds, Binds, hput, hget]
  by_cases hx : x = name
  · simp [hx]
  · simp [hx, Table.get?_put_of_ne]

/-- An exchange with a global does nothing where there is no entry or no scope. -/
theorem exchangeGlobal_cases (w : World) (scope : ScopeId) (name : String) :
    w.exchangeGlobal scope name = w ∨
      ∃ s rest table, w.stack = s :: rest ∧ w.scope? scope = some table := by
  unfold exchangeGlobal
  split
  · rename_i s rest table hs ht
    exact .inr ⟨s, rest, table, hs, ht⟩
  · exact .inl rfl

/-- What is bound after a step was bound before, or may be bound. -/
theorem Step.binds_of (h : Step a w w') {x : String} (hx : w'.Binds a.scope x) :
    w.Binds a.scope x ∨ a.names x := by
  cases h with
  | share s =>
    rw [share_eq] at hx
    exact .inl hx
  | release | install => exact .inl hx
  | @exchangeGlobal name hname =>
    rcases w.exchangeGlobal_cases a.scope name with h | ⟨s, rest, table, hs, ht⟩
    · rw [h] at hx
      exact .inl hx
    · rcases (binds_exchangeGlobal hs ht name x).mp hx with rfl | hx
      · exact hname.symm
      · exact .inl hx
  | @exchangePayload id f _ _ =>
    rcases w.exchangePayload_cases id f with h | ⟨s, rest, p, q, old, -, -, -, h⟩
    · rw [h] at hx
      exact .inl hx
    · rw [h] at hx
      exact .inl hx

/-- No step unbinds a name. -/
theorem Step.binds (h : Step a w w') {x : String} (hx : w.Binds a.scope x) :
    w'.Binds a.scope x := by
  cases h with
  | share s =>
    rw [share_eq]
    exact hx
  | release | install => exact hx
  | @exchangeGlobal name _ =>
    rcases w.exchangeGlobal_cases a.scope name with h | ⟨s, rest, table, hs, ht⟩
    · rwa [h]
    · exact (binds_exchangeGlobal hs ht name x).mpr (.inr hx)
  | @exchangePayload id f _ _ =>
    rcases w.exchangePayload_cases id f with h | ⟨s, rest, p, q, old, -, -, -, h⟩
    · rwa [h]
    · rw [h]
      exact hx

/-- No step closes the scope. -/
theorem Step.isOpen (h : Step a w w') (ho : (w.scope? a.scope).isSome = true) :
    (w'.scope? a.scope).isSome = true := by
  cases h with
  | share s =>
    rw [share_eq]
    exact ho
  | release | install => exact ho
  | @exchangeGlobal name _ =>
    rcases w.exchangeGlobal_cases a.scope name with h | ⟨s, rest, table, hs, ht⟩
    · rwa [h]
    · rw [scope?_exchangeGlobal hs ht]
      rfl
  | @exchangePayload id f _ _ =>
    rcases w.exchangePayload_cases id f with h | ⟨s, rest, p, q, old, -, -, -, h⟩
    · rwa [h]
    · rw [h]
      exact ho

theorem Leads.binds (h : Leads a w w') {x : String} (hx : w.Binds a.scope x) :
    w'.Binds a.scope x :=
  h.keeps (fun _ _ hs => hs.binds) hx

theorem Leads.binds_of (h : Leads a w w') {x : String} (hx : w'.Binds a.scope x) :
    w.Binds a.scope x ∨ a.names x := by
  induction h with
  | refl => exact .inl hx
  | tail _ hs ih => exact (hs.binds_of hx).elim ih .inr

theorem Leads.isOpen (h : Leads a w w') (ho : (w.scope? a.scope).isSome = true) :
    (w'.scope? a.scope).isSome = true :=
  h.keeps (fun _ _ hs => hs.isOpen) ho

/-! ## The changes that evaluation makes -/

theorem Step.leads (h : Step a w w') : Leads a w w' :=
  Relation.ReflTransGen.single h

variable (a w)

theorem leads_share (s : Slot) : Leads a w (w.share s) :=
  (Step.share w s).leads

theorem leads_drop : Leads a w w.drop := by
  unfold drop
  split
  · exact .refl w
  · rename_i s rest hs
    exact (Step.release w [s] (hs ▸ List.subset_cons_self s rest)).leads

theorem leads_unwind (base : Nat) : Leads a w (w.unwind base) :=
  (Step.release w _ (List.drop_subset _ _)).leads

theorem leads_settle (n : Nat) : Leads a w (w.settle n) := by
  unfold settle
  split
  · exact .refl w
  · rename_i s rest hs
    exact (Step.release w _ (hs ▸ List.cons_subset_cons s (List.drop_subset n rest))).leads

theorem leads_replaceBelow (n : Nat) : Leads a w (w.replaceBelow n) := by
  unfold replaceBelow
  split
  · exact .refl w
  · rename_i s rest hs
    split
    · exact .refl w
    · rename_i old deeper hdrop
      refine (Step.release w _ fun x hx => ?_).leads
      have hdeeper : deeper ⊆ rest :=
        List.Subset.trans (List.subset_cons_self old deeper) (hdrop ▸ List.drop_subset n rest)
      rw [hs]
      rcases List.mem_append.mp hx with hx | hx
      · exact List.mem_cons_of_mem s (List.take_subset n rest hx)
      · exact List.cons_subset_cons s hdeeper hx

theorem newest_subset (n : Nat) : w.newest n ⊆ w.stack :=
  List.Subset.trans (List.reverse_subset.mpr (List.Subset.refl _)) (List.take_subset n w.stack)

theorem leads_allocArray (n : Nat) : Leads a w (w.allocArray n) :=
  (Step.install (p := .array (w.newest n).toArray) w (by simp [Payload.kind])
    (List.drop_subset n w.stack) (w.newest_subset n)).leads

theorem leads_allocObject (keys : List String) : Leads a w (w.allocObject keys) := by
  refine (Step.install w (by simp [Payload.kind]) (List.drop_subset keys.length w.stack)
    fun s hs => ?_).leads
  refine w.newest_subset keys.length ?_
  simp only [Payload.slots, Option.toList_none, List.map_nil, List.append_nil, Table.values] at hs
  obtain ⟨⟨k, v⟩, hmem, rfl⟩ := List.mem_map.mp hs
  exact (List.of_mem_zip hmem).2

/-- An instance takes a new reference to its class over. -/
theorem leads_allocInstance (classId : CellId) : Leads a w (w.allocInstance classId) := by
  unfold allocInstance
  split
  · rename_i hlive
    have hshare : w.share (.cell classId) =
        { w with heap := w.heap.retain classId, stack := .cell classId :: w.stack } := if_pos hlive
    refine (leads_share a w (.cell classId)).tail ?_
    rw [hshare]
    exact .install _ (by simp [Payload.kind]) (List.subset_cons_self _ _)
      (by simp [Payload.slots, Table.values])
  · exact (Step.install w (by simp [Payload.kind]) (List.Subset.refl _) (List.nil_subset _)).leads

end World
end Enclave
