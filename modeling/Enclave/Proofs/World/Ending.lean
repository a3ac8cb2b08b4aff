import Enclave.Proofs.Heap.Cascade
import Enclave.Proofs.Heap.Reach
import Enclave.Proofs.World.Sound

/-! # The end of a world

At the end the registers are dropped, then the globals and the closures of the engine, and last what
the host kept. No owner outside the heap is left after that. What cells hold one another, or were
lost, survives, and nothing else does.
-/
namespace Enclave.World

open Heap

variable {t : Limits} {w w' w₁ w₂ w₃ : World}

/-- All that is left when the host and the engine have dropped what they own. -/
def ended (w : World) : World :=
  ({ w.dropRegisters with engine := { w.engine with running := false } }.dropScope
    w.engine.scope).dropBindings.dropKept

/-- Cells that other ones of them hold, or that were lost. -/
def Standing (w : World) (S : CellId → Prop) : Prop :=
  ∀ b, S b → 0 < holders w.lost b ∨ ∃ a, S a ∧ w.heap.Edge a b

/-- A world that is the rest of another one after some owners dropped what they own. -/
structure Rest (w w' : World) : Prop where
  counted : w'.heap.Counted w'.outside
  lost : w'.lost = w.lost
  survives : ∀ S, w.Standing S → ∀ x, S x → w'.heap.payload? x = w.heap.payload? x
  payloads : ∀ x p, w'.heap.payload? x = some p → w.heap.payload? x = some p

/-- Owners drop some slots. -/
theorem rest_of_release {dropped : List Slot} (hc : w.heap.Counted w.outside)
    (hh : w'.heap = w.heap.releaseSlots dropped) (hl : w'.lost = w.lost)
    (ho : ∀ x, w.outside x = holders dropped x + w'.outside x) : Rest w w' := by
  have hc' : w.heap.Counted fun x => (dropped.filterMap Slot.cell?).count x + w'.outside x :=
    hc.congr fun x => by rw [ho, count_filterMap_cell?]
  refine ⟨?_, hl, fun S hS x hx => ?_, fun x p hp => ?_⟩
  · rw [hh]
    exact hc'.releaseAll
  · rw [hh]
    refine hc'.payload?_releaseAll (fun b hb => (hS b hb).imp_left fun hb => ?_) hx
    simp only [outside, hl]
    omega
  · rw [hh] at hp
    exact payload?_of_releaseAll hp

theorem Rest.trans (h₁₂ : Rest w₁ w₂) (h₂₃ : Rest w₂ w₃) : Rest w₁ w₃ := by
  refine ⟨h₂₃.counted, h₂₃.lost.trans h₁₂.lost, fun S hS x hx => ?_,
    fun x p hp => h₁₂.payloads x p (h₂₃.payloads x p hp)⟩
  rw [h₂₃.survives S (fun b hb => ?_) x hx, h₁₂.survives S hS x hx]
  refine (hS b hb).imp (fun hb => h₁₂.lost.symm ▸ hb) fun ⟨a, ha, p, hp, hmem⟩ => ?_
  exact ⟨a, ha, p, (h₁₂.survives S hS a ha).trans hp, hmem⟩

/-! ## Each part of the end -/

theorem rest_dropRegisters (hc : w.heap.Counted w.outside) : Rest w w.dropRegisters := by
  refine rest_of_release hc rfl rfl fun x => ?_
  simp only [outside, external, globals, captured, registered, dropRegisters, Table.values,
    holders_append, List.map_nil, holders_nil]
  omega

theorem rest_stopRunning (hc : w.heap.Counted w.outside) :
    Rest w { w with engine := { w.engine with running := false } } :=
  ⟨hc, rfl, fun _ _ _ _ => rfl, fun _ _ hp => hp⟩

theorem rest_dropScope (hc : w.heap.Counted w.outside) (id : ScopeId) :
    Rest w (w.dropScope id) := by
  unfold dropScope
  split
  · rename_i old ho
    exact rest_of_release hc rfl rfl fun x =>
      (outside_setScope ho none x).symm.trans (Nat.add_comm _ _)
  · exact ⟨hc, rfl, fun _ _ _ _ => rfl, fun _ _ hp => hp⟩

theorem rest_dropBindings (hc : w.heap.Counted w.outside) : Rest w w.dropBindings := by
  refine rest_of_release hc rfl rfl fun x => ?_
  simp only [outside, external, globals, captured, registered, dropBindings, holders_append,
    List.flatMap_nil, holders_nil]
  omega

theorem rest_dropKept (hc : w.heap.Counted w.outside) : Rest w w.dropKept := by
  refine rest_of_release hc rfl rfl fun x => ?_
  simp only [outside, external, globals, captured, registered, dropKept, holders_append,
    holders_nil]
  omega

/-- The whole end, in its order. -/
theorem rest_ended (hc : w.heap.Counted w.outside) : Rest w w.ended := by
  have h₁ := rest_dropRegisters hc
  have h₂ := rest_stopRunning h₁.counted
  have h₃ := rest_dropScope h₂.counted w.engine.scope
  have h₄ := rest_dropBindings h₃.counted
  exact h₁.trans (h₂.trans (h₃.trans (h₄.trans (rest_dropKept h₄.counted))))

/-! ## What is left -/

theorem globals_eq_nil (hs : ∀ i, w.scope? i = none) : w.globals = [] := by
  refine List.flatMap_eq_nil_iff.mpr fun s hs' => ?_
  obtain ⟨i, hi⟩ := List.mem_iff_getElem?.mp hs'
  have := hs i
  rw [Array.getElem?_toList] at hi
  rw [scope?, hi, Option.join_some] at this
  rw [this]
  rfl

/-- No scope is open when the only one ends. -/
theorem closed_dropScope {home : ScopeId} (ho : ∀ i, (w.scope? i).isSome = true → i = home)
    (i : ScopeId) : (w.dropScope home).scope? i = none := by
  rw [scope?_dropScope]
  split
  · rfl
  · rename_i hne
    cases hi : w.scope? i with
    | none => rfl
    | some s => exact absurd (ho i (by rw [hi]; rfl)) hne

theorem Sound.opened_home (hs : w.Sound t) (ht : ¬ t.second) (i : ScopeId)
    (hi : (w.scope? i).isSome = true) : i = w.engine.scope :=
  ((hs.opened i hi).resolve_right fun h => ht h.1).trans hs.home.symm

/-- When the engine's scope was the only one, and nothing was in hand, no owner is left. -/
theorem external_ended (hs : w.Sound t) (ht : ¬ t.second) (hh : t.held = [])
    (hstack : w.stack = []) : w.ended.external = [] := by
  let w₁ : World := { w.dropRegisters with engine := { w.engine with running := false } }
  obtain ⟨-, hheld, hstk, -, -⟩ := w₁.dropScope_fields w.engine.scope
  have hscopes : ∀ i, (w₁.dropScope w.engine.scope).scope? i = none :=
    closed_dropScope (hs.opened_home ht)
  have hglobals : w.ended.globals = [] := globals_eq_nil hscopes
  have hregisters : (w₁.dropScope w.engine.scope).registers = [] := by
    unfold dropScope
    split <;> rfl
  have hreg : w.ended.registered = [] := by
    simp only [registered]
    change (Table.values (w₁.dropScope w.engine.scope).registers).map Value.slot = []
    rw [hregisters]
    rfl
  have hheld' : w.ended.held = [] := hheld.trans (hs.held.trans hh)
  have hstk' : w.ended.stack = [] := hstk.trans hstack
  have hcap : w.ended.captured = [] := rfl
  have hkept : w.ended.kept = [] := rfl
  simp only [external, hglobals, hcap, hreg, hkept, hheld', hstk', List.append_nil]

/-- A cell that nobody can free: it lies on a cycle, or a reference to it was lost. -/
def Leaks (w : World) (id : CellId) : Prop :=
  Slot.cell id ∈ w.lost ∨ w.heap.OnCycle id

/-- What leaks lead to holds itself up. -/
theorem standing_of_leaks (w : World) :
    w.Standing fun b => ∃ root, w.Leaks root ∧ w.heap.Reaches root b := by
  rintro b ⟨root, hroot, hr⟩
  rcases Relation.ReflTransGen.cases_tail hr with rfl | ⟨a, hra, he⟩
  · rcases hroot with hlost | hcy
    · exact .inl (holders_pos.mpr hlost)
    · obtain ⟨a, hba, he⟩ := Relation.TransGen.tail'_iff.mp hcy
      exact .inr ⟨a, ⟨b, .inr hcy, hba⟩, he⟩
  · exact .inr ⟨a, ⟨root, hroot, hra⟩, he⟩

theorem Leaks.isLive (hc : w.heap.Counted w.outside) {root : CellId} (hroot : w.Leaks root) :
    w.heap.isLive root = true := by
  rcases hroot with hlost | hcy
  · refine hc.isLive_of_holder ?_
    have := holders_pos.mpr hlost
    simp only [outside]
    omega
  · exact hcy.isLive

/-- A cell of the rest that nobody outside holds any more was led to by a leak. -/
theorem Rest.exists_leak (hrest : Rest w w') (hext : w'.external = []) {id : CellId}
    (hl : w'.heap.isLive id = true) : ∃ root, w.Leaks root ∧ w.heap.Reaches root id := by
  have hedge : ∀ a b, w'.heap.Edge a b → w.heap.Edge a b :=
    fun a b ⟨p, hp, hb⟩ => ⟨p, hrest.payloads a p hp, hb⟩
  obtain ⟨root, hroot, hr⟩ := hrest.counted.exists_root hl
  refine ⟨root, ?_, Relation.ReflTransGen.mono hedge _ _ hr⟩
  rcases hroot with ho | hcy
  · rw [outside, hext, holders_nil, Nat.zero_add, hrest.lost] at ho
    exact .inl (holders_pos.mp ho)
  · exact .inr (Relation.TransGen.mono hedge _ _ hcy)

/-- After the end the cells are left that a cycle or a lost reference leads to, as things stood
before. -/
theorem isLive_ended (hs : w.Sound t) (ht : ¬ t.second) (hh : t.held = []) (hstack : w.stack = [])
    (id : CellId) :
    w.ended.heap.isLive id = true ↔ ∃ root, w.Leaks root ∧ w.heap.Reaches root id := by
  have hrest := rest_ended hs.counted
  constructor
  · exact hrest.exists_leak (external_ended hs ht hh hstack)
  · rintro ⟨root, hroot, hr⟩
    have hp := hrest.survives _ w.standing_of_leaks id ⟨root, hroot, hr⟩
    have hl := hs.counted.isLive_of_reaches (hroot.isLive hs.counted) hr
    simp only [payload?] at hp
    rw [isLive, ← Option.isSome_map (f := Cell.payload), hp, Option.isSome_map]
    exact hl

end Enclave.World
