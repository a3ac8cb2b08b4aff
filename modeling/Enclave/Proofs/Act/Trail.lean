import Enclave.Proofs.Act.Way
import Enclave.Proofs.Boundary.Blocks

/-! # The trail of an act

A way leaves a trail: the changes that were made, and the text blocks that were given back. Every step
can be counted on to leave the counters of the heap and of the text blocks in order.
-/
namespace Enclave

open World (Change)

namespace Machine

/-- The steps from a machine to a later one, with the text blocks given back on the way, newest
first. -/
inductive Trail (m₀ : Machine) : List Nat → Machine → Prop
  | refl : Trail m₀ [] m₀
  | change {returned : List Nat} {m : Machine} {f : World → World} (h : Trail m₀ returned m)
      (hf : Change f) : Trail m₀ returned { m with world := f m.world }
  | alloc {returned : List Nat} {m : Machine} (h : Trail m₀ returned m) :
      Trail m₀ returned { m with world := m.world.allocText }
  | free {returned : List Nat} {m : Machine} (h : Trail m₀ returned m) (block : Nat) :
      Trail m₀ (block :: returned) { m with world := m.world.freeText block }
  | guard {returned : List Nat} {m : Machine} (h : Trail m₀ returned m) (g : Guard) :
      Trail m₀ returned { m with world := m.world.guard g }
  | unguard {returned : List Nat} {m : Machine} (h : Trail m₀ returned m) (g : Guard) :
      Trail m₀ returned { m with world := m.world.unguard g }
  | note {returned : List Nat} {m : Machine} (h : Trail m₀ returned m) (event : Event) :
      Trail m₀ returned { m with moments := ⟨event, m.world⟩ :: m.moments }

/-- The counters of the heap, now and at all moments so far, newest first, are in order. -/
def Ordered (m : Machine) : Prop :=
  ((m.world :: m.moments.map (·.world)).map (·.heap.tally)).Pairwise fun newer older => older.Le newer

variable {m₀ m₁ m : Machine} {returned returned' : List Nat}

theorem Trail.trans (h : m₀.Trail returned m₁) (h' : m₁.Trail returned' m) :
    m₀.Trail (returned' ++ returned) m := by
  induction h' with
  | refl => exact h
  | change _ hf ih => exact ih.change hf
  | alloc _ ih => exact ih.alloc
  | free _ block ih => exact ih.free block
  | guard _ g ih => exact ih.guard g
  | unguard _ g ih => exact ih.unguard g
  | note _ event ih => exact ih.note event

theorem Way.trail {faithful : Prop} (h : m₀.Way faithful m) : ∃ returned, m₀.Trail returned m := by
  induction h with
  | refl => exact ⟨_, .refl⟩
  | @change m f _ hf ih =>
    obtain ⟨returned, htrail⟩ := ih
    rcases hf.change m.world with he | ⟨g, hg, he⟩
    · exact ⟨returned, he.symm ▸ htrail⟩
    · exact ⟨returned, he.symm ▸ htrail.change hg⟩
  | alloc _ ih => exact ih.imp fun _ h => h.alloc
  | free _ block ih =>
    obtain ⟨returned, htrail⟩ := ih
    exact ⟨_, htrail.free block⟩
  | guard _ g ih => exact ih.imp fun _ h => h.guard g
  | unguard _ g ih => exact ih.imp fun _ h => h.unguard g
  | note _ event _ ih => exact ih.imp fun _ h => h.note event
  | enter _ _ _ _ ih => exact ih.imp fun _ h => h.note _

/-- What a trail does to text blocks. -/
theorem Trail.course (h : m₀.Trail returned m) :
    m₀.world.ledger.Course returned m.world.ledger := by
  induction h with
  | refl => exact .refl
  | @change returned m f _ hf ih =>
    dsimp only
    rwa [hf.ledger]
  | alloc _ ih => exact ih.alloc
  | free _ block ih => exact ih.free block
  | guard _ _ ih | unguard _ _ ih | note _ _ ih => exact ih

theorem Ordered.later (h : m.Ordered) {w : World} (hw : m.world.heap.tally.Le w.heap.tally) :
    ({ m with world := w } : Machine).Ordered := by
  obtain ⟨hnewest, hrest⟩ := List.pairwise_cons.mp h
  exact List.pairwise_cons.mpr ⟨fun t ht => (hnewest t ht).trans hw, hrest⟩

theorem Ordered.note (h : m.Ordered) (event : Event) :
    ({ m with moments := ⟨event, m.world⟩ :: m.moments } : Machine).Ordered := by
  refine List.pairwise_cons.mpr ⟨fun t ht => ?_, h⟩
  rcases List.mem_cons.mp ht with rfl | ht
  · exact .refl _
  · exact (List.pairwise_cons.mp h).1 t ht

/-- On a trail counters only go up. -/
theorem Trail.ordered (h : m₀.Trail returned m) (ho : m₀.Ordered) : m.Ordered := by
  induction h with
  | refl => exact ho
  | change _ hf ih => exact ih.later (hf.tally _)
  | alloc _ ih => exact ih.later (.refl _)
  | free _ _ ih => exact ih.later (.refl _)
  | guard _ _ ih => exact ih.later (.refl _)
  | unguard _ _ ih => exact ih.later (.refl _)
  | note _ event ih => exact ih.note event

end Machine

namespace Outcome

variable {α : Type}

/-- The text blocks that an act leaves beyond what was out earlier: those that its result owes, or
none after a fault. -/
def Owes (l₀ : Ledger) (owes : α → List Nat) : Outcome α → Prop
  | .done a m => l₀.Owes (owes a) m.world.ledger
  | .raised _ m => l₀.Owes [] m.world.ledger
  | .stopped _ => True

end Outcome

namespace Act

variable {α β : Type} {rules : Rules} {held : List Guard} {due : List Nat} {x : Act α}
  {owes : α → List Nat}

/-! ## Trails of acts -/

/-- The act goes on a trail, however it ends. -/
def Trails (x : Act α) : Prop :=
  ∀ m : Machine, ∃ returned, m.Trail returned (x m).machine

theorem Ways.trails {faithful : Prop} (hx : Ways faithful x) : Trails x :=
  fun m => (hx m).trail

/-- Tidy acts go on trails. -/
theorem Tidy.trails (h : Tidy rules held due x owes) : Trails x :=
  h.ways.trails

/-! ## Text blocks of acts -/

/-- From a ledger that owes what the act starts with, it comes to one that owes what it ends with. -/
def Pays (due : List Nat) (x : Act α) (owes : α → List Nat) : Prop :=
  ∀ (m : Machine) (l₀ : Ledger), l₀.Owes due m.world.ledger → (x m).Owes l₀ owes

theorem Pays.bind {f : α → Act β} {owes' : β → List Nat} (hx : Pays due x owes)
    (hf : ∀ a, Pays (owes a) (f a) owes') : Pays due (x >>= f) owes' := by
  intro m l₀ hm
  have h := hx m l₀ hm
  change (Act.bind x f m).Owes l₀ owes'
  unfold Act.bind
  cases hr : x m with
  | done a m₁ =>
    rw [hr] at h
    exact hf a m₁ l₀ h
  | raised fault m₁ | stopped halt =>
    rw [hr] at h
    exact h

theorem pays_world {f : World → Act β} {owes : β → List Nat} (hf : ∀ w, Pays due (f w) owes) :
    Pays due (world >>= f) owes :=
  fun m => hf m.world m

theorem pays_stop (why : Stop) : Pays due (stop why) owes :=
  fun _ _ _ => trivial

theorem Pays.accessing {refused : Act α} (hx : Pays due x owes) (hr : Pays due refused owes)
    (g : Guard) : Pays due (accessing g x refused) owes := by
  refine pays_world fun w => ?_
  split
  · intro m l₀ hm
    have h := hx { m with world := m.world.guard g } l₀ hm
    unfold guarded
    cases hx : x { m with world := m.world.guard g } <;>
      · rw [hx] at h
        exact h
  · exact hr

/-- When all text is accounted for, tidy acts give back what is due. -/
theorem Tidy.pays (ha : rules.accounted) (h : Tidy rules held due x owes) : Pays due x owes := by
  induction h with
  | pure a h =>
    intro m l₀ hm
    rw [← h] at hm
    exact hm
  | raise fault => exact fun m l₀ hm => hm
  | exhausted => exact pays_stop _
  | bind _ _ ihx ihf => exact ihx.bind ihf
  | look _ _ ih => exact pays_world ih
  | change hf =>
    intro m l₀ hm
    rw [← hf.ledger] at hm
    exact hm
  | note event _ => exact fun m l₀ hm => hm
  | enter callee function args receiver _ _ ih =>
    intro m l₀ hm
    by_cases hheld : m.world.heap.payload? callee = some (.function function)
    · rw [through_held hheld]
      exact ih m.world _ l₀ hm
    · rw [through_missing hheld]
      trivial
  | accessing _ _ _ ihx ihr => exact ihx.accessing ihr _
  | surely _ _ ih => exact ih.accessing (pays_stop _) _
  | @attempt _ _ _ x _ _ _ hok herror ih =>
    intro m l₀ hm
    have h := ih m l₀ hm
    unfold Act.attempt
    cases hr : x m with
    | done a m₁ =>
      rw [hr, Outcome.Owes, ← hok] at h
      exact h
    | raised fault m₁ =>
      rw [hr, Outcome.Owes, ← herror fault] at h
      exact h
    | stopped halt => trivial
  | alloc _ ih => exact fun m l₀ hm => ih _ _ l₀ hm.alloc
  | free block => exact fun m l₀ hm => hm.free
  | consult _ f _ => exact fun m l₀ hm => hm
  | lose h a => exact absurd ha h

end Act
end Enclave
