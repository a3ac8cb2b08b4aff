import Enclave.Proofs.Act.Tidy

/-! # Acts among accesses in progress

A tidy act meets no access in progress that it would have to wait for. So it never gives up on one, at
every moment that is noted nothing is being accessed, and it does the same in a world without
exclusion, where no access is ever refused.
-/
namespace Enclave

open World (Deed)

/-- No access was in progress at any of the moments that were noted since `old`. -/
def AccessFree (old moments : List Moment) : Prop :=
  ∃ new, moments = new ++ old ∧ ∀ mo ∈ new, mo.world.guards = []

namespace Machine

variable {m : Machine} {old : List Moment} {held : List Guard}

def unlocked (m : Machine) : Machine :=
  ⟨m.world.unlocked, m.moments.map Moment.unlocked⟩

/-- The accesses `held`, and no others, are in progress, and none was at any moment since `old`. -/
structure Under (old : List Moment) (held : List Guard) (m : Machine) : Prop where
  guards : m.world.guards = held
  moments : AccessFree old m.moments

/-- Where a run starts no moment has been noted yet. -/
theorem under_start (h : m.world.guards = held) : m.Under m.moments held :=
  ⟨h, [], rfl, fun _ hmo => by cases hmo⟩

theorem Under.change (h : m.Under old held) {f : World → World} (hf : Deed f) :
    ({ m with world := f m.world } : Machine).Under old held :=
  ⟨(hf.guards _).trans h.guards, h.moments⟩

theorem Under.note (h : m.Under old []) (event : Event) :
    ({ m with moments := ⟨event, m.world⟩ :: m.moments } : Machine).Under old [] := by
  obtain ⟨new, hnew, hguards⟩ := h.moments
  refine ⟨h.guards, ⟨event, m.world⟩ :: new, ?_, List.forall_mem_cons.mpr ⟨h.guards, hguards⟩⟩
  rw [hnew, List.cons_append]

theorem Under.guard (h : m.Under old held) (g : Guard) :
    ({ m with world := m.world.guard g } : Machine).Under old (g :: held) :=
  ⟨congrArg _ h.guards, h.moments⟩

theorem Under.unguard {g : Guard} (h : m.Under old (g :: held)) :
    ({ m with world := m.world.unguard g } : Machine).Under old held :=
  ⟨by simp [World.unguard, h.guards], h.moments⟩

end Machine

namespace Outcome

variable {α : Type}

/-- The outcome in a world without exclusion. -/
def unlocked : Outcome α → Outcome α
  | .done a m => .done a m.unlocked
  | .raised fault m => .raised fault m.unlocked
  | .stopped halt => .stopped ⟨halt.why, halt.machine.unlocked⟩

/-- The accesses `held` are those in progress at the end, none was at any moment since `old`, and
nothing but the budget has stopped the act. -/
def Under (old : List Moment) (held : List Guard) : Outcome α → Prop
  | .done _ m | .raised _ m => m.Under old held
  | .stopped halt => halt.why = .exhausted ∧ AccessFree old halt.machine.moments

end Outcome

namespace Act

variable {α β : Type} {rules : Rules} {old : List Moment} {held : List Guard} {due : List Nat}
  {x : Act α} {owes : α → List Nat}

/-- The act leaves the accesses in progress as they are, and exclusion makes no difference to it. -/
def Calm (old : List Moment) (held : List Guard) (x : Act α) : Prop :=
  ∀ m : Machine, m.Under old held → (x m).Under old held ∧ x m.unlocked = (x m).unlocked

theorem calm_pure (a : α) : Calm old held (pure a) :=
  fun _ hm => ⟨hm, rfl⟩

theorem Calm.bind {f : α → Act β} (hx : Calm old held x) (hf : ∀ a, Calm old held (f a)) :
    Calm old held (x >>= f) := by
  intro m hm
  obtain ⟨hunder, hsame⟩ := hx m hm
  change (Act.bind x f m).Under old held ∧ Act.bind x f m.unlocked = (Act.bind x f m).unlocked
  unfold Act.bind
  rw [hsame]
  cases hr : x m with
  | done a m₁ =>
    rw [hr] at hunder
    exact hf a m₁ hunder
  | raised fault m₁ | stopped halt =>
    rw [hr] at hunder
    exact ⟨hunder, rfl⟩

theorem calm_look {f : World → Act β} (hf : ∀ w, Calm old held (f w))
    (hu : ∀ w : World, w.guards = held → f w.unlocked = f w) : Calm old held (world >>= f) := by
  intro m hm
  obtain ⟨hunder, hsame⟩ := hf m.world m hm
  refine ⟨hunder, ?_⟩
  change f m.world.unlocked m.unlocked = _
  rw [hu _ hm.guards]
  exact hsame

/-- The access that begins is compatible with those in progress, so it is not refused. -/
theorem Calm.accessing {g : Guard} (hx : Calm old (g :: held) x) (hg : World.Compatible g held)
    (refused : Act α) : Calm old held (accessing g x refused) := by
  intro m hm
  have hallowed : m.world.allows g = true := World.allows_of_compatible (hm.guards.symm ▸ hg)
  have hrun : ∀ m₁ : Machine, m₁.world.allows g = true →
      Act.accessing g x refused m₁ = guarded g x m₁ := fun m₁ h => by
    change (if m₁.world.allows g then guarded g x else refused) m₁ = _
    rw [if_pos h]
  rw [hrun m hallowed, hrun m.unlocked (World.allows_unlocked _ g)]
  obtain ⟨hunder, hsame⟩ := hx _ (hm.guard g)
  have hstart : x { m.unlocked with world := m.unlocked.world.guard g } =
      (x { m with world := m.world.guard g }).unlocked := hsame
  unfold guarded
  rw [hstart]
  cases hr : x { m with world := m.world.guard g } with
  | done a m₁ | raised fault m₁ =>
    rw [hr] at hunder
    exact ⟨Machine.Under.unguard hunder, rfl⟩
  | stopped halt =>
    rw [hr] at hunder
    exact ⟨hunder, rfl⟩

theorem Calm.attempt (hx : Calm old held x) : Calm old held (attempt x) := by
  intro m hm
  obtain ⟨hunder, hsame⟩ := hx m hm
  unfold Act.attempt
  rw [hsame]
  cases hr : x m with
  | done a m₁ | raised fault m₁ | stopped halt =>
    rw [hr] at hunder
    exact ⟨hunder, rfl⟩

/-- Tidy acts are calm. -/
theorem Tidy.calm (h : Tidy rules held due x owes) (ho : rules.own → old = []) :
    Calm old held x := by
  induction h with
  | pure a => exact calm_pure a
  | raise fault => exact fun m hm => ⟨hm, rfl⟩
  | exhausted => exact fun m hm => ⟨⟨rfl, hm.moments⟩, rfl⟩
  | bind _ _ ihx ihf => exact ihx.bind ihf
  | look _ hu ih => exact calm_look ih hu
  | change hf =>
    refine fun m hm => ⟨hm.change hf, ?_⟩
    exact congrArg (fun w => Outcome.done () ⟨w, m.unlocked.moments⟩) (hf.unlocked m.world)
  | note event => exact fun m hm => ⟨hm.note event, rfl⟩
  | enter callee function args receiver _ hu ih =>
    refine calm_look (fun w => ?_) fun w hw => ?_
    · split
      · exact Calm.bind (fun m hm => ⟨hm.note _, rfl⟩) fun _ => ih w
      · exact fun m hm => ⟨⟨rfl, hm.moments⟩, rfl⟩
    · dsimp only
      rw [hu w hw]
      rfl
  | accessing hg _ _ ihx _ => exact ihx.accessing hg _
  | surely hg _ ih => exact ih.accessing hg _
  | attempt _ _ _ ih => exact ih.attempt
  | alloc _ ih => exact fun m hm => ih _ _ ⟨hm.guards, hm.moments⟩
  | free block => exact fun m hm => ⟨⟨hm.guards, hm.moments⟩, rfl⟩
  | consult hown f hu =>
    refine fun m hm => ⟨hm, ?_⟩
    obtain ⟨new, hnew, hguards⟩ := hm.moments
    rw [ho hown, List.append_nil] at hnew
    exact congrArg (Outcome.done · m.unlocked) (hu m.moments (hnew ▸ hguards))
  | lose _ a => exact calm_pure a

end Act
end Enclave
