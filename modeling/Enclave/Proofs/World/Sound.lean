import Enclave.Proofs.World.Owners

/-! # Sound worlds

A world is sound when its heap is counted by the slots of all its owners. What may change besides
from one moment to the next, and what may not, is fixed by limits: the scopes that may be open, what
the host holds while it is at work on a cell, and whether a reference may be lost.
-/
namespace Enclave

/-- The limits of a stretch of a session. Beside the scope of the engine only the newest one may be
open, if there is a second runtime. -/
structure Limits where
  home : ScopeId
  second : Prop
  held : List Slot
  lossless : Prop

namespace World

structure Sound (t : Limits) (w : World) : Prop where
  counted : w.heap.Counted w.outside
  whole : t.lossless → w.lost = []
  home : w.engine.scope = t.home
  opened : ∀ i, (w.scope? i).isSome = true → i = t.home ∨ t.second ∧ i + 1 = w.scopes.size
  held : w.held = t.held

variable {t : Limits} {w : World}

theorem sound_initial (config : Config) (second lossless : Prop) :
    (initial config).Sound ⟨0, second, [], lossless⟩ := by
  refine ⟨Heap.counted_empty.congr fun id => ?_, fun _ => rfl, rfl, fun i hi => .inl ?_, rfl⟩
  · simp [outside, external, globals, captured, registered, initial, scopeSlots, Table.values]
  · cases i with
    | zero => rfl
    | succ i => simp [initial, scope?] at hi

/-- A move leads from one world to a later one and from a sound one to a sound one. -/
structure Move (t : Limits) (w w' : World) : Prop where
  sound : w.Sound t → w'.Sound t
  later : w.heap.Later w'.heap

theorem Move.refl (t : Limits) (w : World) : Move t w w :=
  ⟨id, Heap.Later.refl w.heap⟩

theorem Move.trans {w₁ w₂ w₃ : World} (h₁₂ : Move t w₁ w₂) (h₂₃ : Move t w₂ w₃) : Move t w₁ w₃ :=
  ⟨h₂₃.sound ∘ h₁₂.sound, h₁₂.later.trans h₂₃.later⟩

/-! ## The working stack -/

/-- The stack may change as long as its slots hold the same references. -/
theorem move_stack (t : Limits) (w : World) {stack : List Slot}
    (hs : ∀ id, holders stack id = holders w.stack id) : Move t w { w with stack := stack } := by
  refine ⟨fun h => { h with counted := h.counted.congr fun id => ?_ }, Heap.Later.refl _⟩
  simp only [outside, external, globals, captured, registered, holders_append, hs]

/-- Part of the stack may be dropped. -/
theorem move_drop (t : Limits) (w : World) {stack dropped : List Slot}
    (hs : ∀ id, holders dropped id + holders stack id = holders w.stack id) :
    Move t w { w with stack := stack, heap := w.heap.releaseSlots dropped } := by
  refine ⟨fun h => { h with counted := Heap.Counted.releaseSlots (h.counted.congr fun id => ?_) },
    Heap.later_releaseSlots _ _⟩
  simp only [outside, external, globals, captured, registered, holders_append, ← hs]
  omega

theorem move_push (t : Limits) (w : World) (v : Scalar) : Move t w (w.push v) :=
  move_stack t w fun id => by simp

theorem move_share (t : Limits) (w : World) (s : Slot) : Move t w (w.share s) := by
  unfold share
  split
  · exact move_push t w _
  · split
    · rename_i hl
      refine ⟨fun h => { h with counted := (h.counted.retain hl).congr fun id => ?_ },
        Heap.later_retain _ _⟩
      simp only [outside, external, globals, captured, registered, holders_append, holders_cons]
      omega
    · exact move_push t w _

theorem move_dropTop (t : Limits) (w : World) : Move t w w.drop := by
  unfold drop
  split
  · exact Move.refl t w
  · rename_i s rest hs
    exact move_drop t w fun id => by simp [hs]

theorem move_dropMany (t : Limits) (w : World) (n : Nat) : Move t w (w.dropMany n) :=
  move_drop t w fun id => holders_take_drop n w.stack id

theorem move_settle (t : Limits) (w : World) (n : Nat) : Move t w (w.settle n) := by
  unfold settle
  split
  · exact Move.refl t w
  · rename_i s rest hs
    refine move_drop t w fun id => ?_
    have := holders_take_drop n rest id
    simp only [hs, holders_cons]
    omega

theorem move_unwind (t : Limits) (w : World) (height : Nat) : Move t w (w.unwind height) :=
  move_dropMany t w _

theorem move_lift (t : Limits) (w : World) (n : Nat) : Move t w (w.lift n) := by
  unfold lift
  split
  · exact Move.refl t w
  · rename_i s rest hs
    refine move_stack t w fun id => ?_
    have := holders_take_drop n w.stack id
    simp only [hs, holders_cons] at this
    simp only [holders_cons, holders_append]
    omega

theorem move_replaceBelow (t : Limits) (w : World) (n : Nat) : Move t w (w.replaceBelow n) := by
  unfold replaceBelow
  split
  · exact Move.refl t w
  · rename_i s rest hs
    split
    · exact Move.refl t w
    · rename_i old deeper hd
      refine move_drop t w fun id => ?_
      have := holders_take_drop n rest id
      simp only [hd, holders_cons] at this
      simp only [hs, holders_nil, holders_cons, holders_append]
      omega

theorem move_secureUnder (t : Limits) (w : World) (base passed : Nat) (s : Slot) :
    Move t w (w.secureUnder base passed s) := by
  unfold secureUnder
  split
  · exact move_push t w _
  · split
    · exact move_lift t w _
    · exact move_share t w _

theorem move_secureAll (t : Limits) (w : World) (base passed : Nat) (slots : List Slot) :
    Move t w (w.secureAll base passed slots) := by
  induction slots generalizing w passed with
  | nil => exact Move.refl t w
  | cons s rest ih => exact (move_secureUnder t w base passed s).trans (ih _ _)

theorem move_discard (t : Limits) (w : World) (base : Nat) (s : Slot) :
    Move t w (w.discard base s) := by
  unfold discard
  split
  · exact Move.refl t w
  · split
    · exact (move_lift t w _).trans (move_dropTop t _)
    · exact Move.refl t w

theorem move_discardAll (t : Limits) (w : World) (base : Nat) (slots : List Slot) :
    Move t w (w.discardAll base slots) := by
  induction slots generalizing w with
  | nil => exact Move.refl t w
  | cons s rest ih => exact (move_discard t w base s).trans (ih _)

/-- A reference is lost only where references may be lost. -/
theorem move_forget (w : World) (ht : ¬ t.lossless) : Move t w w.forget := by
  refine ⟨fun h => { h with
    counted := h.counted.congr fun id => ?_
    whole := fun hl => absurd hl ht }, Heap.Later.refl _⟩
  have := holders_take_drop 1 w.stack id
  simp only [outside, external, globals, captured, registered, forget, holders_append]
  omega

/-! ## Allocation -/

/-- The newest entries move into a new cell. -/
theorem move_install (t : Limits) (w : World) (n : Nat) (p : Payload)
    (hp : ∀ id, holders p.slots id = holders (w.stack.take n) id) :
    Move t w ((w.pop n).install p) := by
  refine ⟨fun h => { h with counted := ?_ }, Heap.later_alloc _ _⟩
  have hc : w.heap.Counted fun id => holders p.slots id +
      (holders { w with stack := w.stack.drop n }.external id + holders w.lost id) := by
    refine h.counted.congr fun id => ?_
    have := holders_take_drop n w.stack id
    rw [hp id]
    simp only [outside, external, globals, captured, registered, holders_append]
    omega
  refine hc.alloc.congr fun id => ?_
  simp only [outside, external, globals, captured, registered, pop, install, holders_append,
    holders_cons]
  omega

theorem move_installEmpty (t : Limits) (w : World) (p : Payload) (hp : p.slots = []) :
    Move t w (w.install p) :=
  move_install t w 0 p fun id => by simp [hp]

theorem move_allocArray (t : Limits) (w : World) (n : Nat) : Move t w (w.allocArray n) :=
  move_install t w n _ fun id => by simp [Payload.slots, newest]

theorem move_allocObject (t : Limits) (w : World) (keys : List String) :
    Move t w (w.allocObject keys) := by
  refine move_install t w keys.length _ fun id => ?_
  have hl : (w.newest keys.length).length ≤ keys.length := by
    simp only [newest, List.length_reverse, List.length_take]
    omega
  have hv : Table.values (keys.zip (w.newest keys.length)) = w.newest keys.length :=
    List.map_snd_zip hl
  change holders (Table.values (keys.zip (w.newest keys.length)) ++ []) id = _
  rw [hv, List.append_nil, newest, holders_reverse]

theorem move_allocInstance (t : Limits) (w : World) (classId : CellId) :
    Move t w (w.allocInstance classId) := by
  unfold allocInstance
  split
  · rename_i hl
    refine ⟨fun h => { h with counted := ?_ },
      (Heap.later_retain _ _).trans (Heap.later_alloc _ _)⟩
    have hc : (w.heap.retain classId).Counted fun id =>
        holders (Payload.object [] (some classId)).slots id + w.outside id :=
      (h.counted.retain hl).congr fun id => by simp [Payload.slots, Table.values]
    refine hc.alloc.congr fun id => ?_
    simp only [outside, external, globals, captured, registered, install, holders_append,
      holders_cons]
    omega
  · exact move_installEmpty t w _ rfl

theorem move_allocTask (t : Limits) (w : World) : Move t w w.allocTask := by
  refine move_install t w 1 _ fun id => ?_
  cases hs : w.stack <;> simp [Payload.slots, top, hs]

/-! ## Exchanges -/

theorem move_exchangePayload (t : Limits) (w : World) (id : CellId)
    {f : Payload → Slot → Option (Payload × Slot)} (hf : Payload.Swaps f) :
    Move t w (w.exchangePayload id f) := by
  unfold exchangePayload
  split
  · rename_i s rest p hs hp
    split
    · rename_i q old hq
      obtain ⟨hk, ho⟩ := hf p s q old hq
      refine ⟨fun h => { h with counted := h.counted.setPayload hp hk fun x => ?_ },
        Heap.later_setPayload _ _ _⟩
      have := ho x
      simp only [outside, external, globals, captured, registered, hs, holders_append,
        holders_cons]
      omega
    · exact Move.refl t w
  · exact Move.refl t w

/-- A global and what is in hand change places. -/
theorem outside_exchangeGlobal (w : World) (id : ScopeId) (name : String) (x : CellId) :
    (w.exchangeGlobal id name).outside x = w.outside x := by
  unfold exchangeGlobal
  split
  · rename_i s rest old hs ho
    let w₁ := w.setScope id (some (old.put name s))
    have hg : w₁.outside x + holders old.values x =
        w.outside x + holders (old.put name s).values x := outside_setScope ho _ x
    have hv := Table.holders_values_put old name s x
    have hk := outside_stack w₁ ((old.get? name).getD .null :: rest) x
    have hw : w₁.stack = s :: rest := hs
    rw [hw, holders_cons, holders_cons] at hk
    change { w₁ with stack := (old.get? name).getD .null :: rest }.outside x = _
    omega
  · rfl

theorem move_exchangeGlobal (t : Limits) (w : World) (id : ScopeId) (name : String) :
    Move t w (w.exchangeGlobal id name) := by
  have hout := w.outside_exchangeGlobal id name
  unfold exchangeGlobal at hout ⊢
  split
  · rename_i s rest old hs ho
    simp only [hs, ho] at hout
    refine ⟨fun h => { h with
      counted := h.counted.congr fun x => (hout x).symm
      opened := fun i hi => ?_ }, Heap.Later.refl _⟩
    change ((w.setScope id (some (old.put name s))).scope? i).isSome = true at hi
    rw [scope?_setScope ho] at hi
    change i = t.home ∨ t.second ∧ i + 1 = (w.setScope id (some (old.put name s))).scopes.size
    rw [size_setScope]
    refine h.opened i ?_
    split at hi
    · rename_i he
      rw [he, ho]
      rfl
    · exact hi
  · exact Move.refl t w

theorem move_exchangeRegister (t : Limits) (w : World) (name : String) (kind : Kind) :
    Move t w (w.exchangeRegister name kind) := by
  unfold exchangeRegister
  split
  · rename_i s rest hs
    refine ⟨fun h => { h with counted := h.counted.congr fun x => ?_ }, Heap.Later.refl _⟩
    have hr := Table.holders_slots_put w.registers name (.ofSlot kind s) x
    rw [Value.slot_ofSlot] at hr
    simp only [outside, external, globals, captured, registered, hs, holders_append, holders_cons]
    omega
  · exact Move.refl t w

/-! ## Registers, closures and what the host keeps -/

theorem move_removeRegister (t : Limits) (w : World) (name : String) :
    Move t w (w.removeRegister name) := by
  unfold removeRegister
  split
  · rename_i v hv
    refine ⟨fun h => { h with counted := Heap.Counted.releaseSlots (h.counted.congr fun x => ?_) },
      Heap.later_releaseSlots _ _⟩
    have := Table.holders_slots_erase hv x
    simp only [outside, external, globals, captured, registered, holders_append, holders_cons,
      holders_nil]
    omega
  · exact Move.refl t w

theorem move_keep (t : Limits) (w : World) : Move t w w.keep := by
  unfold keep
  split
  · rename_i s rest hs
    refine ⟨fun h => { h with counted := h.counted.congr fun x => ?_ }, Heap.Later.refl _⟩
    simp only [outside, external, globals, captured, registered, hs, holders_append, holders_cons]
    omega
  · exact Move.refl t w

theorem move_retrieve (t : Limits) (w : World) (n : Nat) : Move t w (w.retrieve n) := by
  unfold retrieve
  split
  · rename_i s rest hs
    refine ⟨fun h => { h with counted := h.counted.congr fun x => ?_ }, Heap.Later.refl _⟩
    have := holders_take_drop n w.kept x
    simp only [hs, holders_cons] at this
    simp only [outside, external, globals, captured, registered, holders_append, holders_cons]
    omega
  · exact move_push t w _

theorem move_bind (t : Limits) (w : World) (label : Option String) (kinds : List Kind)
    (body : HostFunction) : Move t w (w.bind label kinds body) := by
  refine ⟨fun h => { h with counted := h.counted.congr fun x => ?_ }, Heap.Later.refl _⟩
  have hl : (w.newest kinds.length).length ≤ kinds.length := by
    simp only [newest, List.length_reverse, List.length_take]
    omega
  have hd := holders_take_drop kinds.length w.stack x
  have hc : holders ((kinds.zipWith Value.ofSlot (w.newest kinds.length)).map Value.slot) x =
      holders (w.stack.take kinds.length) x := by
    rw [Value.slots_zipWith_ofSlot hl, newest, holders_reverse]
  simp only [outside, external, globals, captured, registered, bind, Binding.slots,
    Array.toList_push, List.flatMap_append, List.flatMap_cons, List.flatMap_nil, holders_append,
    hc, holders_nil]
  omega

/-! ## Changes of the limits -/

theorem sound_addScope (hs : w.Sound t) (ht : ¬ t.second) :
    w.addScope.Sound { t with second := True } := by
  refine { hs with counted := hs.counted.congr fun x => ?_, opened := fun i hi => ?_ }
  · simp [outside, external, globals, captured, registered, addScope, scopeSlots, Table.values]
  · simp only [addScope, Array.size_push]
    rcases Nat.lt_trichotomy i w.scopes.size with hlt | rfl | hgt
    · refine .inl ((hs.opened i ?_).resolve_right fun h => ht h.1)
      simpa [addScope, scope?, Array.getElem?_push_lt hlt, hlt] using hi
    · exact .inr ⟨trivial, rfl⟩
    · have hsize : (w.scopes.push (some [])).size ≤ i := by
        rw [Array.size_push]
        omega
      simp [addScope, scope?, Array.getElem?_eq_none hsize] at hi

theorem counted_dropScope (hc : w.heap.Counted w.outside) (id : ScopeId) :
    (w.dropScope id).heap.Counted (w.dropScope id).outside := by
  unfold dropScope
  split
  · rename_i old ho
    refine Heap.Counted.releaseSlots (hc.congr fun x => ?_)
    exact (outside_setScope ho none x).symm.trans (Nat.add_comm _ _)
  · exact hc

theorem sound_dropNewestScope (hs : w.Sound { t with second := True }) :
    w.dropNewestScope.Sound t := by
  obtain ⟨he, hh, -, hl, -⟩ := w.dropScope_fields (w.scopes.size - 1)
  refine ⟨counted_dropScope hs.counted _, fun ht => hl.trans (hs.whole ht),
    (congrArg Engine.scope he).trans hs.home, fun i hi => ?_, hh.trans hs.held⟩
  rw [dropNewestScope, scope?_dropScope] at hi
  split at hi
  · cases hi
  · rename_i hne
    exact .inl ((hs.opened i hi).resolve_right fun h => hne (Nat.eq_sub_of_add_eq h.2))

theorem sound_hold {s : Slot} {rest : List Slot} (hs : w.Sound t) (hl : w.stack = s :: rest) :
    w.hold.Sound { t with held := s :: t.held } := by
  have he : w.hold = { w with held := s :: w.held, stack := rest } := by simp only [hold, hl]
  rw [he]
  refine { hs with counted := hs.counted.congr fun x => ?_, held := by rw [hs.held] }
  simp only [outside, external, globals, captured, registered, hl, holders_append, holders_cons]
  omega

theorem sound_letGo {s : Slot} {held : List Slot} (hs : w.Sound { t with held := s :: held })
    (ht : t.held = held) : w.letGo.Sound t := by
  have hw : w.held = s :: held := hs.held
  refine { hs with
    counted := Heap.Counted.releaseSlots (hs.counted.congr fun x => ?_)
    held := by simp [letGo, hw, ht] }
  simp only [letGo, outside, external, globals, captured, registered, hw, holders_append,
    holders_cons, List.take_succ_cons, List.drop_succ_cons, List.take_zero, List.drop_zero,
    holders_nil]
  omega

/-! ## Changes that concern no owner -/

theorem move_allocText (t : Limits) (w : World) : Move t w w.allocText :=
  ⟨fun h => { h with counted := h.counted }, Heap.Later.refl _⟩

theorem move_freeText (t : Limits) (w : World) (block : Nat) : Move t w (w.freeText block) :=
  ⟨fun h => { h with counted := h.counted }, Heap.Later.refl _⟩

theorem move_guard (t : Limits) (w : World) (g : Guard) : Move t w (w.guard g) :=
  ⟨fun h => { h with counted := h.counted }, Heap.Later.refl _⟩

theorem move_unguard (t : Limits) (w : World) (g : Guard) : Move t w (w.unguard g) :=
  ⟨fun h => { h with counted := h.counted }, Heap.Later.refl _⟩

end World
end Enclave
