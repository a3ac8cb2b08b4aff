import Enclave.Proofs.Act.Tidy

/-! # The way of an act

From one machine to another an act goes by single steps: deeds, text blocks handed out and given back,
accesses that begin and end, and moments that are noted. Whatever every step keeps, a whole act keeps.
-/
namespace Enclave

open World (Deed)

namespace Machine

/-- The steps from a machine to a later one. On a faithful way a call by way of a function cell is only
noted as one of what the cell holds, with what it is lent there and then. -/
inductive Way (faithful : Prop) (m₀ : Machine) : Machine → Prop
  | refl : Way faithful m₀ m₀
  | change {m : Machine} {f : World → World} (h : Way faithful m₀ m) (hf : Deed f) :
      Way faithful m₀ { m with world := f m.world }
  | alloc {m : Machine} (h : Way faithful m₀ m) :
      Way faithful m₀ { m with world := m.world.allocText }
  | free {m : Machine} (h : Way faithful m₀ m) (block : Nat) :
      Way faithful m₀ { m with world := m.world.freeText block }
  | guard {m : Machine} (h : Way faithful m₀ m) (g : Guard) :
      Way faithful m₀ { m with world := m.world.guard g }
  | unguard {m : Machine} (h : Way faithful m₀ m) (g : Guard) :
      Way faithful m₀ { m with world := m.world.unguard g }
  | note {m : Machine} (h : Way faithful m₀ m) (event : Event)
      (he : faithful → event.callee? = none) : Way faithful m₀ (m.noting event)
  | enter {m : Machine} (h : Way faithful m₀ m) {callee : CellId} {function : NativeFunction}
      (hheld : m.world.heap.payload? callee = some (.function function)) (args : List Slot)
      (receiver : Option Slot) :
      Way faithful m₀ (m.noting (m.world.opening callee function args receiver))

variable {faithful : Prop} {m₀ m₁ m : Machine}

theorem Way.trans (h : m₀.Way faithful m₁) (h' : m₁.Way faithful m) : m₀.Way faithful m := by
  induction h' with
  | refl => exact h
  | change _ hf ih => exact ih.change hf
  | alloc _ ih => exact ih.alloc
  | free _ block ih => exact ih.free block
  | guard _ g ih => exact ih.guard g
  | unguard _ g ih => exact ih.unguard g
  | note _ event he ih => exact ih.note event he
  | enter _ hheld args receiver ih => exact ih.enter hheld args receiver

/-- On its way a world evolves. -/
theorem Way.evolves (h : m₀.Way faithful m) : m₀.world.Evolves m.world := by
  induction h with
  | refl => exact .refl _
  | change _ hf ih => exact ih.trans (hf.evolves _)
  | alloc _ ih | free _ _ ih | guard _ _ ih | unguard _ _ ih =>
    exact ih.trans (World.evolves_of_same rfl rfl)
  | note _ _ _ ih | enter _ _ _ _ ih => exact ih

/-- On its way a machine forgets no moment. -/
theorem Way.moments (h : m₀.Way faithful m) : m₀.moments <:+ m.moments := by
  induction h with
  | refl => exact List.suffix_refl _
  | change _ _ ih | alloc _ ih | free _ _ ih | guard _ _ ih | unguard _ _ ih => exact ih
  | note _ _ _ ih | enter _ _ _ _ ih => exact ih.trans (List.suffix_cons _ _)

end Machine

/-- Where an act ended. -/
def Outcome.machine {α : Type} : Outcome α → Machine
  | .done _ m | .raised _ m => m
  | .stopped halt => halt.machine

namespace Act

variable {α β : Type} {faithful : Prop} {x : Act α}

/-- The act goes on a way, however it ends. -/
def Ways (faithful : Prop) (x : Act α) : Prop :=
  ∀ m : Machine, m.Way faithful (x m).machine

theorem Ways.bind {f : α → Act β} (hx : Ways faithful x) (hf : ∀ a, Ways faithful (f a)) :
    Ways faithful (x >>= f) := by
  intro m
  have h := hx m
  change m.Way faithful (Act.bind x f m).machine
  unfold Act.bind
  cases hr : x m with
  | done a m₁ =>
    rw [hr] at h
    exact h.trans (hf a m₁)
  | raised fault m₁ | stopped halt =>
    rw [hr] at h
    exact h

theorem ways_pure (a : α) : Ways faithful (pure a) :=
  fun _ => .refl

theorem ways_stop (why : Stop) : Ways faithful (stop why : Act α) :=
  fun _ => .refl

theorem ways_world {f : World → Act β} (hf : ∀ w, Ways faithful (f w)) :
    Ways faithful (world >>= f) :=
  fun m => hf m.world m

theorem ways_change {f : World → World} (hf : Deed f) : Ways faithful (change f) :=
  fun _ => Machine.Way.refl.change hf

theorem Ways.accessing {refused : Act α} (hx : Ways faithful x) (hr : Ways faithful refused)
    (g : Guard) : Ways faithful (accessing g x refused) := by
  refine ways_world fun w => ?_
  split
  · intro m
    have h := (Machine.Way.refl.guard g).trans (hx { m with world := m.world.guard g })
    unfold guarded
    cases hx : x { m with world := m.world.guard g } with
    | done a m₁ | raised fault m₁ =>
      rw [hx] at h
      exact h.unguard g
    | stopped halt =>
      rw [hx] at h
      exact h
  · exact hr

theorem Ways.attempt (hx : Ways faithful x) : Ways faithful (attempt x) := by
  intro m
  have h := hx m
  unfold Act.attempt
  cases hr : x m <;> rwa [hr] at h

/-- Tidy acts go on ways. -/
theorem Tidy.ways {rules : Rules} {held : List Guard} {due : List Nat} {owes : α → List Nat}
    (h : Tidy rules held due x owes) : Ways rules.faithful x := by
  induction h with
  | pure a => exact ways_pure a
  | raise fault => exact fun m => .refl
  | exhausted => exact ways_stop _
  | bind _ _ ihx ihf => exact ihx.bind ihf
  | look _ _ ih => exact ways_world ih
  | change hf => exact ways_change hf
  | note event he => exact fun m => Machine.Way.refl.note event he
  | enter callee function args receiver _ _ ih =>
    intro m
    by_cases hheld : m.world.heap.payload? callee = some (.function function)
    · rw [through_held hheld]
      exact (Machine.Way.refl.enter hheld args receiver).trans (ih m.world _)
    · rw [through_missing hheld]
      exact .refl
  | accessing _ _ _ ihx ihr => exact ihx.accessing ihr _
  | surely _ _ ih => exact ih.accessing (ways_stop _) _
  | attempt _ _ _ ih => exact ih.attempt
  | alloc _ ih =>
    exact fun m => Machine.Way.refl.alloc.trans
      (ih m.world.ledger.next { m with world := m.world.allocText })
  | free block => exact fun m => Machine.Way.refl.free block
  | consult _ f _ => exact fun m => .refl
  | lose _ a => exact ways_pure a

/-- An act in a world evolves it. -/
theorem Tidy.evolves {rules : Rules} {held : List Guard} {due : List Nat} {owes : α → List Nat}
    {m m' : Machine} {a : α} (h : Tidy rules held due x owes) (hrun : x m = .done a m') :
    m.world.Evolves m'.world := by
  have hway := h.ways m
  rw [hrun] at hway
  exact hway.evolves

end Act
end Enclave
