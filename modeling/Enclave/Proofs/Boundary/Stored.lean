import Enclave.Proofs.Boundary.Given

/-! # What a write does

A write happens under a guard of its own, which leaves no trace. Where the cell can be written and its
payload takes the slot, the whole effect is a new payload, a reference to the new slot, and the drop of
what the payload held at that place. Anywhere else there is no effect.
-/
namespace Enclave

namespace Heap

variable {h : Heap} {id : CellId} {p q : Payload}

/-- One more reference to what a slot names. -/
def retainSlot (h : Heap) : Slot → Heap
  | .scalar _ => h
  | .cell id => h.retain id

theorem payload?_retainSlot (h : Heap) (s : Slot) (x : CellId) :
    (h.retainSlot s).payload? x = h.payload? x := by
  cases s with
  | scalar v => rfl
  | cell id => exact ((Raised.refl h).retain id).payload? x

theorem next_retainSlot (h : Heap) (s : Slot) : (h.retainSlot s).next = h.next := by
  cases s with
  | scalar v => rfl
  | cell id => exact ((Raised.refl h).retain id).next

/-- If a cell survives the drop of what its payload held, it has its new payload. -/
theorem payload?_stored (hp : h.payload? id = some p) {dropped : List Slot} {r : Payload}
    (hr : ((h.setPayload id q).releaseSlots dropped).payload? id = some r) : r = q := by
  have hr' := payload?_of_releaseAll hr
  rw [payload?_setPayload hp, if_pos rfl, Option.some.injEq] at hr'
  exact hr'.symm

end Heap

namespace World

variable {w : World} {s : Slot} {rest : List Slot} {id : CellId} {p q : Payload} {old : Slot}
  {f : Payload → Slot → Option (Payload × Slot)}

theorem share_eq (w : World) (s : Slot) :
    w.share s = { w with heap := w.heap.retainSlot s, stack := w.found s :: w.stack } := by
  cases s with
  | scalar v => rfl
  | cell id =>
    by_cases hl : w.heap.isLive id = true
    · simp only [share, found, if_pos hl, Heap.retainSlot]
    · have hdead : w.heap.cell? id = none := by simpa [Heap.isLive] using hl
      simp only [share, found, if_neg hl, Heap.retainSlot, Heap.retain, hdead]
      rfl

theorem share_alive (h : w.Alive s) :
    w.share s = { w with heap := w.heap.retainSlot s, stack := s :: w.stack } := by
  rw [share_eq, found_of_alive h]

theorem handle_of_cellOf? {kind : Kind} {handle : Option CellId}
    (hc : w.cellOf? kind handle = some id) : handle = some id :=
  Option.eq_some_of_filter_eq_some hc

theorem kind?_of_cellOf? {kind : Kind} {handle : Option CellId}
    (hc : w.cellOf? kind handle = some id) : w.heap.kind? id = some kind :=
  beq_iff_eq.mp (Option.filter_eq_some_iff.mp hc).2

/-- The payload of a cell that nothing keeps from being written. -/
def writable? (w : World) (id : CellId) : Option Payload :=
  if w.canWrite (.payload id) then w.heap.payload? id else none

theorem payload?_of_writable (hw : w.writable? id = some p) : w.heap.payload? id = some p := by
  unfold writable? at hw
  split at hw
  · exact hw
  · cases hw

theorem canRead_of_canWrite {place : Place} (h : w.canWrite place = true) :
    w.canRead place = true := by
  simp only [canWrite, canRead, Bool.or_eq_true, List.all_eq_true] at h ⊢
  exact h.imp_right fun h g hg => .inl (h g hg)

theorem visible?_of_writable (hw : w.writable? id = some p) : w.visible? id = some p := by
  unfold writable? at hw
  split at hw
  · rename_i hwrite
    rw [visible?, if_pos (canRead_of_canWrite hwrite)]
    exact hw
  · cases hw

theorem writable?_share (w : World) (s : Slot) (id : CellId) :
    (w.share s).writable? id = w.writable? id := by
  rw [share_eq]
  change (if w.canWrite (.payload id) then (w.heap.retainSlot s).payload? id else none) = _
  rw [Heap.payload?_retainSlot]
  rfl

/-- The world after a new reference to what `s` names was put into a cell, which left the payload `q`
there and drove out `old`. -/
def stored (w : World) (s : Slot) (id : CellId) (q : Payload) (old : Slot) : World :=
  { w with heap := ((w.heap.retainSlot s).setPayload id q).releaseSlots [old] }

/-- An exchange with a payload, and the drop of what came out of it. -/
theorem drop_exchangePayload (hs : w.stack = s :: rest) (hp : w.heap.payload? id = some p)
    (hf : f p s = some (q, old)) :
    (w.exchangePayload id f).drop =
      { w with heap := (w.heap.setPayload id q).releaseSlots [old], stack := rest } := by
  simp only [exchangePayload, hs, hp, hf, drop]

/-- A new reference goes into a cell, and what it drives out is dropped. -/
theorem drop_exchange_share (hp : w.heap.payload? id = some p) (hf : f p (w.found s) = some (q, old)) :
    ((w.share s).exchangePayload id f).drop = w.stored s id q old := by
  have hp' : (w.share s).heap.payload? id = some p := by
    rw [share_eq]
    exact (Heap.payload?_retainSlot _ _ _).trans hp
  have hstack : (w.share s).stack = w.found s :: w.stack := by rw [share_eq]
  rw [drop_exchangePayload hstack hp' hf, stored, share_eq]

theorem move_stored (t : Limits) (hp : w.heap.payload? id = some p)
    (hf : f p (w.found s) = some (q, old)) (hx : Payload.Swaps f) :
    Move t w (w.stored s id q old) := by
  rw [← drop_exchange_share hp hf]
  exact (w.move_share t s).trans ((World.move_exchangePayload t _ id hx).trans (World.move_dropTop t _))

/-- A cell that is owned outside the heap has its new payload after a write. -/
theorem payload?_stored {t : Limits} (hw : w.Sound t) (hp : w.heap.payload? id = some p)
    (hf : f p (w.found s) = some (q, old)) (hx : Payload.Swaps f)
    (hid : Slot.cell id ∈ w.external) : (w.stored s id q old).heap.payload? id = some q := by
  have hsound := (move_stored t hp hf hx).sound hw
  have hlive : (w.stored s id q old).heap.isLive id = true :=
    isLive_of_external hsound.counted hid
  obtain ⟨cell, hcell⟩ := Heap.isLive_iff.mp hlive
  have hr : (w.stored s id q old).heap.payload? id = some cell.payload := by
    simp [Heap.payload?, hcell]
  have hp' : (w.heap.retainSlot s).payload? id = some p := (Heap.payload?_retainSlot _ _ _).trans hp
  rw [hr, Heap.payload?_stored hp' hr]

theorem unguard_exchangePayload (w : World) (g : Guard) :
    ((w.guard g).exchangePayload id f).unguard g = w.exchangePayload id f := by
  have hback : (w.guard g).unguard g = w := by simp [guard, unguard]
  cases hs : w.stack with
  | nil => simpa [exchangePayload, guard, hs] using hback
  | cons s rest =>
    cases hp : w.heap.payload? id with
    | none => simpa [exchangePayload, guard, hs, hp] using hback
    | some p =>
      cases hf : f p s with
      | none => simpa [exchangePayload, guard, hs, hp, hf] using hback
      | some exchanged => simp [exchangePayload, guard, unguard, hs, hp, hf]

/-- The native function that a slot names: its cell can be seen and holds a function. -/
def native? (w : World) : Slot → Option NativeFunction
  | .scalar _ => none
  | .cell id =>
    match w.visible? id with
    | some (.function f) => some f
    | _ => none

theorem native?_eq_some_iff {f : NativeFunction} :
    w.native? (.cell id) = some f ↔ w.visible? id = some (.function f) := by
  cases hv : w.visible? id with
  | none => simp [native?, hv]
  | some p => cases p <;> simp [native?, hv]

/-! ## Globals and what is handed over -/

theorem unguard_exchangeGlobal (w : World) (g : Guard) (scope : ScopeId) (name : String) :
    ((w.guard g).exchangeGlobal scope name).unguard g = w.exchangeGlobal scope name := by
  have hback : (w.guard g).unguard g = w := by simp [guard, unguard]
  cases hs : w.stack with
  | nil => simpa [exchangeGlobal, guard, hs] using hback
  | cons s rest =>
    have hscope : (w.guard g).scope? scope = w.scope? scope := rfl
    cases ht : w.scope? scope with
    | none => simpa [exchangeGlobal, hscope, ht] using hback
    | some globals =>
      simp only [exchangeGlobal, hscope, ht, hs]
      simp [guard, unguard, setScope, hs]

/-- An exchange with a global, and the drop of what came out of it. -/
theorem drop_exchangeGlobal {scope : ScopeId} {globals : Table Slot} (name : String)
    (hs : w.stack = s :: rest) (ht : w.scope? scope = some globals) :
    (w.exchangeGlobal scope name).drop =
      { w.setScope scope (some (globals.put name s)) with
        heap := w.heap.releaseSlots [(globals.get? name).getD .null], stack := rest } := by
  simp only [exchangeGlobal, hs, ht, drop]
  rfl

theorem global?_put {scope : ScopeId} {globals : Table Slot} (ht : w.scope? scope = some globals)
    (name : String) (s : Slot) :
    (w.setScope scope (some (globals.put name s))).global? scope name = some s := by
  rw [global?, scope?_setScope ht, if_pos rfl]
  exact Table.get?_put_self globals name s

/-- The newest entry after a record that it came with has been consumed: what the record names, or a
scalar. -/
def consumed (w : World) (r : Record) : World :=
  match r.slot with
  | .cell _ => w
  | .scalar v => w.drop.push v

theorem drop_push (w : World) (v : Scalar) : (w.push v).drop = w := by
  simp only [push, drop, Heap.releaseSlots_scalar]

theorem drop_consumed (w : World) (r : Record) : (w.consumed r).drop = w.drop := by
  unfold consumed
  split
  · rfl
  · exact drop_push _ _

end World

namespace Act

variable {α β : Type} {x : Act α} {g : α → Act β} {m m' : Machine} {id : CellId}

/-! ## Accesses -/

/-- An act on which a guard has no influence. -/
def Unguarded (x : Act α) : Prop :=
  ∀ a m, guarded a x m = x m

theorem unguarded_pure (a : α) : Unguarded (pure a) := by
  intro g m
  have hback : (m.world.guard g).unguard g = m.world := by simp [World.guard, World.unguard]
  change Outcome.done a { m with world := (m.world.guard g).unguard g } = .done a m
  rw [hback]

theorem unguarded_raise (fault : Fault) : Unguarded (raise fault : Act α) := by
  intro g m
  have hback : (m.world.guard g).unguard g = m.world := by simp [World.guard, World.unguard]
  change Outcome.raised fault { m with world := (m.world.guard g).unguard g } = .raised fault m
  rw [hback]

theorem unguarded_share (s : Slot) : Unguarded (share s) := by
  intro g m
  have hfound : (m.world.guard g).found s = m.world.found s := by cases s <;> rfl
  have hback : ((m.world.guard g).share s).unguard g = m.world.share s := by
    rw [World.share_eq, World.share_eq, hfound]
    simp [World.guard, World.unguard]
  change Outcome.done () { m with world := ((m.world.guard g).share s).unguard g } = _
  rw [hback]
  rfl

theorem unguarded_push (v : Scalar) : Unguarded (push v) :=
  unguarded_share (.scalar v)

theorem unguarded_exchange (id : CellId) (f : Payload → Slot → Option (Payload × Slot)) :
    Unguarded (change (·.exchangePayload id f)) := by
  intro g m
  change Outcome.done () { m with world := ((m.world.guard g).exchangePayload id f).unguard g } = _
  rw [World.unguard_exchangePayload]
  rfl

theorem Unguarded.then_pure {x : Act Unit} (hx : Unguarded x) (b : β) :
    Unguarded (x >>= fun _ => pure b) := by
  intro g m
  have h := hx g m
  change guarded g (Act.bind x fun _ => Act.pure b) m = Act.bind x (fun _ => Act.pure b) m
  simp only [guarded, Act.bind] at h ⊢
  cases hrun : x { m with world := m.world.guard g } with
  | done c m' =>
    rw [hrun] at h
    rw [← h]
    rfl
  | raised fault m' | stopped halt =>
    rw [hrun] at h
    rw [← h]

/-- An access stays unguarded when the payload that it is for is looked up under the guard. -/
theorem unguarded_access {x : Payload → Act α} {refused : Act α} (hx : ∀ p, Unguarded (x p))
    (hr : Unguarded refused) (found : Option Payload) :
    Unguarded (match found with
      | some p => x p
      | none => refused) := by
  cases found with
  | none => exact hr
  | some p => exact hx p

/-- A write takes place where the cell can be written, and its guard leaves no trace. -/
theorem writing_eq {x : Payload → Act α} {refused : Act α} (hx : ∀ p, Unguarded (x p))
    (hr : Unguarded refused) (id : CellId) (m : Machine) :
    writing id x refused m =
      (match m.world.writable? id with
        | some p => x p
        | none => refused) m := by
  change (if m.world.canWrite (.payload id) = true then
    guarded ⟨.payload id, true⟩ _ else refused) m = _
  unfold World.writable?
  by_cases hw : m.world.canWrite (.payload id) = true
  · rw [if_pos hw, if_pos hw]
    exact unguarded_access hx hr _ ⟨.payload id, true⟩ m
  · rw [if_neg hw, if_neg hw]

/-- A read takes place where the cell can be seen. -/
theorem reading_eq {x : Payload → Act α} {refused : Act α} (hx : ∀ p, Unguarded (x p))
    (hr : Unguarded refused) (id : CellId) (m : Machine) :
    reading id x refused m =
      (match m.world.visible? id with
        | some p => x p
        | none => refused) m := by
  change (if m.world.canRead (.payload id) = true then
    guarded ⟨.payload id, false⟩ _ else refused) m = _
  unfold World.visible?
  by_cases hw : m.world.canRead (.payload id) = true
  · rw [if_pos hw, if_pos hw]
    exact unguarded_access hx hr _ ⟨.payload id, false⟩ m
  · rw [if_neg hw, if_neg hw]

/-- A read of a cell that can be seen, if the guard of the read has no influence on it. -/
theorem reading_visible {x : Payload → Act α} {refused : Act α} {p : Payload}
    (hv : m.world.visible? id = some p)
    (hx : guarded ⟨.payload id, false⟩ (x p) m = x p m) :
    reading id x refused m = x p m := by
  have hread : m.world.canRead (.payload id) = true ∧ m.world.heap.payload? id = some p := by
    simpa [World.visible?] using hv
  change (if m.world.canRead (.payload id) = true then
    guarded ⟨.payload id, false⟩ _ else refused) m = _
  have hguarded : ∀ z : Act α, z { m with world := m.world.guard ⟨.payload id, false⟩ } =
      x p { m with world := m.world.guard ⟨.payload id, false⟩ } →
      guarded ⟨.payload id, false⟩ z m = guarded ⟨.payload id, false⟩ (x p) m := by
    intro z hz
    unfold guarded
    rw [hz]
  rw [if_pos hread.1]
  refine (hguarded _ ?_).trans hx
  change (match m.world.heap.payload? id with | some p => x p | none => refused) _ = _
  rw [hread.2]

/-- The function that a slot names is looked up without any effect. -/
theorem nativeOf_run (s : Slot) (m : Machine) : nativeOf s m = .done (m.world.native? s) m := by
  cases s with
  | scalar v => rfl
  | cell id =>
    refine (reading_eq (fun p => ?_) (unguarded_pure none) id m).trans ?_
    · cases p <;> exact unguarded_pure _
    simp only [World.native?]
    cases m.world.visible? id with
    | none => rfl
    | some p => cases p <;> rfl

/-! ## Entry points that write -/

variable {kind : Kind} {handle : Option CellId} {v : Option Record} {r : Record} {p q : Payload}
  {old : Slot} {exchange : Payload → Slot → Option (Payload × Slot)}

/-- What an entry point does with the payload that it writes, if it can be written. -/
theorem writing_exchange (id : CellId) (exchange : Payload → Slot → Option (Payload × Slot))
    (s : Slot) (m : Machine) :
    writing id
      (fun p =>
        match exchange p s with
        | some _ => do
          change (·.exchangePayload id exchange)
          pure true
        | none => pure false)
      (pure false) m =
      match (m.world.writable? id).bind fun p => exchange p s with
      | some _ => .done true { m with world := m.world.exchangePayload id exchange }
      | none => .done false m := by
  rw [writing_eq (fun p => ?_) (unguarded_pure false)]
  · cases hp : m.world.writable? id with
    | none => rfl
    | some p =>
      cases hf : exchange p s <;> simp only [Option.bind_some, hf] <;> rfl
  · cases exchange p s with
    | some _ => exact (unguarded_exchange id exchange).then_pure true
    | none => exact unguarded_pure false

theorem storeInto_missing (h : m.world.cellOf? kind handle = none ∨ v = none) :
    storeInto kind handle v exchange m = .done false m := by
  unfold storeInto
  rw [bind_done (world_eq m)]
  rcases h with h | rfl
  · rw [h]
    rfl
  · cases m.world.cellOf? kind handle <;> rfl

/-- The effect of a record that is lent to a cell of the kind. -/
theorem storeInto_eq (hc : m.world.cellOf? kind handle = some id) (r : Record) :
    storeInto kind handle (some r) exchange m =
      match (m.world.writable? id).bind fun p => exchange p (m.world.found r.slot) with
      | some _ =>
        .done true { m with world := ((m.world.share r.slot).exchangePayload id exchange).drop }
      | none => .done false { m with world := (m.world.share r.slot).drop } := by
  have hborrow : borrow r m = .done () { m with world := m.world.share r.slot } := rfl
  have htop : (m.world.share r.slot).top = m.world.found r.slot := by
    simp only [World.share_eq, World.top, List.headD_cons]
  have hwrite := writing_exchange id exchange (m.world.share r.slot).top
    { m with world := m.world.share r.slot }
  simp only [World.writable?_share, htop] at hwrite
  unfold storeInto
  rw [bind_done (world_eq m), hc]
  change (borrow r >>= fun _ => top >>= fun s => _) m = _
  rw [bind_done hborrow, bind_done (top_eq _), htop]
  cases hf : (m.world.writable? id).bind fun p => exchange p (m.world.found r.slot) with
  | some exchanged =>
    rw [hf] at hwrite
    exact bind_done hwrite
  | none =>
    rw [hf] at hwrite
    exact bind_done hwrite

/-- A record that is lent to a cell which takes it. -/
theorem storeInto_stored (hc : m.world.cellOf? kind handle = some id)
    (hw : m.world.writable? id = some p)
    (hf : exchange p (m.world.found r.slot) = some (q, old)) :
    storeInto kind handle (some r) exchange m =
      .done true { m with world := m.world.stored r.slot id q old } := by
  rw [storeInto_eq hc]
  simp only [hw, Option.bind_some, hf]
  rw [World.drop_exchange_share (World.payload?_of_writable hw) hf]

/-- What a successful write went through. -/
theorem stored_of_storeInto (h : storeInto kind handle v exchange m = .done true m') :
    ∃ id r p q old, m.world.cellOf? kind handle = some id ∧ v = some r ∧
      m.world.writable? id = some p ∧ exchange p (m.world.found r.slot) = some (q, old) ∧
      m' = { m with world := m.world.stored r.slot id q old } := by
  cases hc : m.world.cellOf? kind handle with
  | none =>
    rw [storeInto_missing (.inl hc)] at h
    cases h
  | some id =>
    cases v with
    | none =>
      rw [storeInto_missing (.inr rfl)] at h
      cases h
    | some r =>
      cases hf : (m.world.writable? id).bind fun p => exchange p (m.world.found r.slot) with
      | none =>
        rw [storeInto_eq hc, hf] at h
        cases h
      | some exchanged =>
        obtain ⟨q, old⟩ := exchanged
        obtain ⟨p, hw, hf⟩ := Option.bind_eq_some_iff.mp hf
        rw [storeInto_stored hc hw hf] at h
        cases h
        exact ⟨id, r, p, q, old, rfl, rfl, hw, hf, rfl⟩

/-- A write that comes to nothing leaves nothing behind. -/
theorem gains_of_storeInto (hp : m.world.heap.Proper)
    (h : storeInto kind handle v exchange m = .done false m') : m.Gains .none m' := by
  cases hc : m.world.cellOf? kind handle with
  | none =>
    rw [storeInto_missing (.inl hc)] at h
    cases h
    exact .refl m
  | some id =>
    cases v with
    | none =>
      rw [storeInto_missing (.inr rfl)] at h
      cases h
      exact .refl m
    | some r =>
      rw [storeInto_eq hc] at h
      cases hf : (m.world.writable? id).bind fun p => exchange p (m.world.found r.slot) with
      | none =>
        rw [hf] at h
        cases h
        exact ((Machine.Gains.refl m).share r.slot).drop hp
      | some exchanged =>
        rw [hf] at h
        cases h

/-! ## What is handed over -/

variable {name : Option Text.Bytes} {scope : ScopeId} {running status : Bool}

/-- What becomes of a method that is handed over: it goes into the class, or is dropped. -/
theorem addMethod_cases (h : addMethod handle name m = .done status m') :
    (status = false ∧ m' = { m with world := m.world.drop }) ∨
      ∃ f id p bytes, status = true ∧ m.world.cellOf? .function m.world.top.cell? = some f ∧
        name = some bytes ∧ m.world.cellOf? .classDesc handle = some id ∧
        m.world.writable? id = some p ∧
        m' = { m with world :=
          (m.world.exchangePayload id (Payload.putMethod (readText bytes))).drop } := by
  unfold addMethod at h
  rw [bind_done (top_eq m), bind_done (world_eq m)] at h
  cases hf : m.world.cellOf? .function m.world.top.cell? with
  | none =>
    rw [hf] at h
    cases h
    exact .inl ⟨rfl, rfl⟩
  | some f =>
    cases name with
    | none =>
      rw [hf] at h
      cases h
      exact .inl ⟨rfl, rfl⟩
    | some bytes =>
      cases hid : m.world.cellOf? .classDesc handle with
      | none =>
        rw [hf, hid] at h
        cases h
        exact .inl ⟨rfl, rfl⟩
      | some id =>
        rw [hf, hid] at h
        obtain ⟨stored, m₁, hwrite, hrest⟩ := bind_done_iff.mp h
        rw [writing_eq (fun p => (unguarded_exchange _ _).then_pure true) (unguarded_pure false)]
          at hwrite
        cases hw : m.world.writable? id with
        | none =>
          rw [hw] at hwrite
          cases hwrite
          cases hrest
          exact .inl ⟨rfl, rfl⟩
        | some p =>
          rw [hw] at hwrite
          cases hwrite
          cases hrest
          exact .inr ⟨f, id, p, bytes, rfl, rfl, rfl, rfl, hw, rfl⟩

theorem consume_eq (r : Record) (m : Machine) :
    consume r m = .done () { m with world := m.world.consumed r } := by
  unfold consume World.consumed
  cases r.slot <;> rfl

/-- A change under a guard that it has nothing to do with. -/
theorem surely_change {f : World → World} {g : Guard}
    (hf : ∀ w : World, (f (w.guard g)).unguard g = f w) (m : Machine) :
    surely g (change f) m =
      if m.world.allows g then .done () { m with world := f m.world }
      else .stopped ⟨.conflict, m⟩ := by
  change (if m.world.allows g = true then guarded _ _ else _ : Act Unit) m = _
  split
  · change Outcome.done () { m with world := (f (m.world.guard g)).unguard g } = _
    rw [hf]
  · rfl

/-- The newest entry becomes the value of a global, which has to wait for no other access. -/
theorem declare_eq (scope : ScopeId) (name : String) (m : Machine) :
    declare scope name m =
      if m.world.canWrite (.scope scope) then
        .done () { m with world := (m.world.exchangeGlobal scope name).drop }
      else .stopped ⟨.conflict, m⟩ := by
  have hx := surely_change (f := (·.exchangeGlobal scope name)) (g := ⟨.scope scope, true⟩)
    (fun w => World.unguard_exchangeGlobal ..) m
  change surely _ _ m = if m.world.canWrite (.scope scope) = true then _ else _ at hx
  by_cases hw : m.world.canWrite (.scope scope) = true
  · rw [if_pos hw] at hx ⊢
    exact (bind_done hx).trans rfl
  · rw [if_neg hw] at hx ⊢
    exact bind_stopped hx

theorem declare_done {name : String} (h : declare scope name m = .done () m') :
    m.world.canWrite (.scope scope) = true ∧
      m' = { m with world := (m.world.exchangeGlobal scope name).drop } := by
  rw [declare_eq] at h
  by_cases hw : m.world.canWrite (.scope scope) = true
  · rw [if_pos hw] at h
    cases h
    exact ⟨hw, rfl⟩
  · rw [if_neg hw] at h
    cases h

/-- What becomes of a record that is handed over for a global: its reference goes into the scope, or
is dropped. -/
theorem declareGlobal_cases (h : declareGlobal scope running name v m = .done status m') :
    (status = false ∧ m' = { m with world := m.world.drop }) ∨
      ∃ bytes r, status = true ∧ name = some bytes ∧ v = some r ∧
        m' = { m with world :=
          ((m.world.consumed r).exchangeGlobal scope (readText bytes)).drop } := by
  unfold declareGlobal at h
  cases v with
  | none =>
    cases h
    exact .inl ⟨rfl, rfl⟩
  | some r =>
    simp only [] at h
    rw [bind_done (consume_eq r m)] at h
    have hdrop : ({ m with world := (m.world.consumed r).drop } : Machine) =
        { m with world := m.world.drop } := by rw [World.drop_consumed]
    cases name with
    | none =>
      cases h
      exact .inl ⟨rfl, hdrop⟩
    | some bytes =>
      cases running with
      | false =>
        cases h
        exact .inl ⟨rfl, hdrop⟩
      | true =>
        obtain ⟨u, m₁, hdeclare, hrest⟩ := bind_done_iff.mp h
        cases hrest
        exact .inr ⟨bytes, r, rfl, rfl, rfl, (declare_done hdeclare).2⟩

end Act
end Enclave
