import Enclave.Proofs.World.Bare
import Enclave.Proofs.World.Ending

/-! # Layered worlds

Numbers are given out in order, so a reference leads to an older cell when its number is less than that
of the cell that holds it. A heap in which all references do so has no cycles. Only a member that is
given a reference can make one lead to a newer cell: every step of a script that puts nothing but
scalars into members keeps a world layered.
-/
namespace Enclave

namespace Heap

/-- Every reference in a payload leads to an older cell. -/
def Layered (h : Heap) : Prop :=
  ∀ a b, h.Edge a b → b < a

variable {h h' : Heap} {a b : CellId}

theorem Layered.lt_of_transGen (hl : h.Layered) (hr : Relation.TransGen h.Edge a b) : b < a := by
  induction hr with
  | single he => exact hl _ _ he
  | tail _ he ih => exact Nat.lt_trans (hl _ _ he) ih

theorem Layered.acyclic (hl : h.Layered) (id : CellId) : ¬ h.OnCycle id :=
  fun hr => Nat.lt_irrefl id (hl.lt_of_transGen hr)

/-- A heap with the payloads of a layered one, or fewer, is layered. -/
theorem Layered.of_payloads (hl : h.Layered)
    (hp : ∀ id p, h'.payload? id = some p → h.payload? id = some p) : h'.Layered :=
  fun a b ⟨p, hpayload, hmem⟩ => hl a b ⟨p, hp a p hpayload, hmem⟩

/-- The newest cell may lead to any other one. -/
theorem Layered.alloc (hl : h.Layered) {p : Payload}
    (hp : ∀ id, Slot.cell id ∈ p.slots → id < h.next) : (h.alloc p).Layered := by
  rintro a b ⟨q, hq, hmem⟩
  rw [payload?_alloc] at hq
  split at hq
  · rename_i ha
    cases hq
    exact ha ▸ hp b hmem
  · exact hl a b ⟨q, hq, hmem⟩

/-- A payload may lose references. -/
theorem Layered.setPayload (hl : h.Layered) {id : CellId} {p q : Payload}
    (hp : h.payload? id = some p) (hq : ∀ x, Slot.cell x ∈ q.slots → Slot.cell x ∈ p.slots) :
    (h.setPayload id q).Layered := by
  rintro a b ⟨r, hr, hmem⟩
  rw [payload?_setPayload hp] at hr
  split at hr
  · rename_i ha
    cases hr
    exact hl a b ⟨p, ha ▸ hp, hq b hmem⟩
  · exact hl a b ⟨r, hr, hmem⟩

end Heap

/-- What an exchange with a scalar brings out of a payload, and what it leaves there, was there. -/
theorem Payload.Swaps.of_scalar {f : Payload → Slot → Option (Payload × Slot)}
    (hf : Payload.Swaps f) {p q : Payload} {s old : Slot} {id : CellId}
    (h : f p s = some (q, old)) (hs : s.cell? = none) (hid : old = .cell id ∨ Slot.cell id ∈ q.slots) :
    Slot.cell id ∈ p.slots := by
  have howns := (hf p s q old h).2 id
  have hzero : s.owns id = 0 := by simp [Slot.owns, hs]
  rw [← holders_pos] at hid ⊢
  rcases hid with rfl | hid
  · rw [Slot.owns_self] at howns
    omega
  · omega

namespace World

/-- All references lead to older cells, and those from outside the heap to cells that there were. -/
structure Layered (w : World) : Prop where
  heap : w.heap.Layered
  known : ∀ id, 0 < w.outside id → id < w.heap.next

variable {a : Allowance} {w w' : World} {id : CellId}

theorem layered_initial (config : Config) : (initial config).Layered := by
  refine ⟨?_, fun id hid => ?_⟩
  · rintro x y ⟨p, hp, -⟩
    simp [initial, Heap.empty, Heap.payload?, Heap.cell?] at hp
  · simp [outside, external, globals, captured, registered, initial, scopeSlots, Table.values] at hid

theorem Layered.known_of_stack (h : w.Layered) (hid : Slot.cell id ∈ w.stack) :
    id < w.heap.next := by
  refine h.known id ?_
  have hpos := holders_pos.mpr hid
  rw [outside_eq]
  omega

/-- Another heap in which references lead to older cells, and another stack of cells that there are. -/
theorem Layered.restacked (h : w.Layered) {heap : Heap} {stack : List Slot} (hl : heap.Layered)
    (hnext : w.heap.next ≤ heap.next) (hs : ∀ id, Slot.cell id ∈ stack → id < heap.next) :
    { w with heap := heap, stack := stack }.Layered := by
  refine ⟨hl, fun id hid => ?_⟩
  have hout := w.outside_stack stack id
  by_cases hmem : Slot.cell id ∈ stack
  · exact hs id hmem
  · have hnone := holders_eq_zero hmem
    change 0 < { w with stack := stack }.outside id at hid
    exact Nat.lt_of_lt_of_le (h.known id (by omega)) hnext

/-- No step makes a reference lead to a newer cell, if only scalars may be put into members. -/
theorem Step.layered (h : Step a w w') (hm : ¬ a.members) (hw : w.Layered) : w'.Layered := by
  cases h with
  | share s =>
    rw [share_eq]
    have hnext := Heap.next_retainSlot w.heap s
    have hheap : (w.heap.retainSlot s).Layered :=
      hw.heap.of_payloads fun id p hp => (Heap.payload?_retainSlot _ _ _).symm.trans hp
    refine hw.restacked hheap (Nat.le_of_eq hnext.symm) fun id hid => ?_
    rw [hnext]
    rcases List.mem_cons.mp hid with hfound | hid
    · exact Alive.lt_next (hfound ▸ w.alive_found s)
    · exact hw.known_of_stack hid
  | release dropped hs =>
    have hnext := (Heap.later_releaseSlots w.heap dropped).next
    exact hw.restacked (hw.heap.of_payloads fun id p hp => Heap.payload?_of_releaseAll hp) hnext
      fun id hid => Nat.lt_of_lt_of_le (hw.known_of_stack (hs hid)) hnext
  | install hp hs hslots =>
    refine hw.restacked (hw.heap.alloc fun id hid => hw.known_of_stack (hslots hid))
      (Heap.later_alloc _ _).next fun id hid => ?_
    rw [Heap.next_alloc]
    rcases List.mem_cons.mp hid with hnew | hid
    · cases hnew
      exact Nat.lt_succ_self _
    · exact Nat.lt_succ_of_lt (hw.known_of_stack (hs hid))
  | exchangeGlobal _ =>
    refine ⟨?_, fun id hid => ?_⟩
    · rw [heap_exchangeGlobal]
      exact hw.heap
    · rw [outside_exchangeGlobal] at hid
      rw [heap_exchangeGlobal]
      exact hw.known id hid
  | @exchangePayload id f hf hscalar =>
    rcases w.exchangePayload_cases id f with h | ⟨s, rest, p, q, old, hs, hp, hq, h⟩
    · rwa [h]
    · have htop : s.cell? = none := by
        rw [← top_of_stack hs]
        exact hscalar.resolve_left hm
      have hnext := (Heap.later_setPayload w.heap id q).next
      rw [h]
      refine hw.restacked (hw.heap.setPayload hp fun x hx => hf.of_scalar hq htop (.inr hx)) hnext
        fun x hx => Nat.lt_of_lt_of_le ?_ hnext
      rcases List.mem_cons.mp hx with hold | hx
      · have hedge : w.heap.Edge id x := ⟨p, hp, hf.of_scalar hq htop (.inl hold.symm)⟩
        exact Nat.lt_trans (hw.heap id x hedge) (Heap.lt_next_of_payload? hp)
      · exact hw.known_of_stack (hs ▸ List.mem_cons_of_mem s hx)

theorem Leads.layered (h : Leads a w w') (hm : ¬ a.members) (hw : w.Layered) : w'.Layered :=
  h.keeps (fun _ _ hs => hs.layered hm) hw

/-! ## What only globals own -/

/-- What scripts leave alone: the slots of closures, registers and the host, and the lost references. -/
def aside (w : World) : List Slot :=
  w.captured ++ w.registered ++ w.kept ++ w.held ++ w.lost

theorem Step.aside (h : Step a w w') : w'.aside = w.aside := by
  cases h with
  | share s => rw [share_eq]; rfl
  | release | install => rfl
  | exchangeGlobal =>
    unfold World.exchangeGlobal
    split <;> rfl
  | @exchangePayload id f _ _ =>
    unfold World.exchangePayload
    split
    · split <;> rfl
    · rfl

theorem Leads.aside (h : Leads a w w') : w'.aside = w.aside :=
  h.keeps (fun _ _ hs hw => hs.aside.trans hw) rfl

theorem aside_dropScope (w : World) (id : ScopeId) : (w.dropScope id).aside = w.aside := by
  unfold dropScope
  split <;> rfl

/-- Where nothing is aside or in hand, all owners are globals. -/
theorem owned_by_globals (ha : w.aside = []) (hstack : w.stack = []) :
    w.external = w.globals ∧ w.lost = [] := by
  simp only [World.aside, List.append_eq_nil_iff] at ha
  obtain ⟨⟨⟨⟨hcaptured, hregistered⟩, hkept⟩, hheld⟩, hlost⟩ := ha
  simp [external, hcaptured, hregistered, hkept, hheld, hstack, hlost]

/-- Nothing is leaked: references lead to older cells, the live cells are those that the globals lead
to, and when the scope ends none is left and the counters are balanced. -/
structure LeakFree (scope : ScopeId) (w : World) : Prop where
  layered : w.heap.Layered
  acyclic : ∀ id, ¬ w.heap.OnCycle id
  live : ∀ id, w.heap.isLive id = true ↔
    ∃ root, Slot.cell root ∈ w.globals ∧ w.heap.Reaches root id
  ended : ∀ id, (w.dropScope scope).heap.isLive id = false
  balanced : (w.dropScope scope).heap.tally.isBalanced = true

theorem leakFree_of_sound {t : Limits} (hs : w.Sound t) (ht : ¬ t.second) (hl : w.heap.Layered)
    (ha : w.aside = []) (hstack : w.stack = []) : w.LeakFree w.engine.scope := by
  obtain ⟨hexternal, hlost⟩ := owned_by_globals ha hstack
  have hrest := rest_dropScope hs.counted w.engine.scope
  have hended : ∀ id, (w.dropScope w.engine.scope).heap.isLive id = false := by
    intro id
    obtain ⟨-, -, hstk, -, -⟩ := w.dropScope_fields w.engine.scope
    obtain ⟨hglobals, -⟩ := owned_by_globals ((w.aside_dropScope _).trans ha) (hstk.trans hstack)
    have hclosed := globals_eq_nil (closed_dropScope (hs.opened_home ht))
    refine Bool.eq_false_iff.mpr fun hlive => ?_
    obtain ⟨root, hlost' | hcycle, -⟩ := hrest.exists_leak (hglobals.trans hclosed) hlive
    · rw [hlost] at hlost'
      cases hlost'
    · exact hl.acyclic root hcycle
  refine ⟨hl, hl.acyclic, fun id => (hs.counted.isLive_iff_reached id).trans ?_, hended,
    hrest.counted.isBalanced_iff.mpr hended⟩
  refine exists_congr fun root => and_congr_left fun _ => ?_
  rw [outside, hexternal, hlost, holders_nil, Nat.add_zero, holders_pos]
  exact or_iff_left (hl.acyclic root)

end World
end Enclave
