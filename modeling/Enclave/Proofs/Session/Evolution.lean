import Enclave.Proofs.Session.Tallies

/-! # The evolution of sessions

A session goes on one faithful way from its first world, so every world that a host can observe has
evolved from the first one, and from each that was observed before. Each call that began by way of a
function cell was one of what the cell held then.
-/
namespace Enclave

/-- At this moment a call begins by way of the function cell. It is one of what the cell holds, with what
it is lent there and then. -/
def Moment.Opens (mo : Moment) (callee : CellId) : Prop :=
  ∃ function args receiver, mo.event = mo.world.opening callee function args receiver ∧
    mo.world.heap.payload? callee = some (.function function)

namespace Machine

/-- The worlds of the moments, newest first, and before them the present one. -/
def worlds (m : Machine) : List World :=
  m.world :: m.moments.map (·.world)

/-- A machine that has come from a world on a faithful way. -/
structure Evolved (start : World) (m : Machine) : Prop where
  since : ∀ w ∈ m.worlds, start.Evolves w
  ordered : m.worlds.Pairwise fun later earlier => earlier.Evolves later
  openings : ∀ mo ∈ m.moments, ∀ callee, mo.event.callee? = some callee → mo.Opens callee

variable {start : World} {m₀ m : Machine}

theorem evolved_start (start : World) : (⟨start, []⟩ : Machine).Evolved start where
  since := List.forall_mem_singleton.mpr (.refl start)
  ordered := List.pairwise_singleton _ _
  openings := fun mo hmo => by cases hmo

theorem Evolved.later (h : m.Evolved start) {w : World} (hw : m.world.Evolves w) :
    ({ m with world := w } : Machine).Evolved start := by
  obtain ⟨hpresent, hsince⟩ := List.forall_mem_cons.mp h.since
  obtain ⟨hnewest, hrest⟩ := List.pairwise_cons.mp h.ordered
  refine ⟨List.forall_mem_cons.mpr ⟨hpresent.trans hw, hsince⟩, ?_, h.openings⟩
  exact List.pairwise_cons.mpr ⟨fun w' hw' => (hnewest w' hw').trans hw, hrest⟩

theorem Evolved.note (h : m.Evolved start) {event : Event}
    (he : ∀ callee, event.callee? = some callee → (⟨event, m.world⟩ : Moment).Opens callee) :
    (m.noting event).Evolved start where
  since := List.forall_mem_cons.mpr ⟨h.since _ List.mem_cons_self, h.since⟩
  ordered := by
    refine List.pairwise_cons.mpr ⟨fun w hw => ?_, h.ordered⟩
    rcases List.mem_cons.mp hw with rfl | hw
    · exact .refl _
    · exact (List.pairwise_cons.mp h.ordered).1 w hw
  openings := List.forall_mem_cons.mpr ⟨he, h.openings⟩

/-- The world of a moment has evolved from those of the moments before. -/
theorem Evolved.before (h : m.Evolved start) {newer older : List Moment} {mo : Moment}
    (hm : m.moments = newer ++ mo :: older) :
    ∀ w ∈ mo.world :: older.map (·.world), w.Evolves mo.world := by
  have hordered := (List.pairwise_cons.mp h.ordered).2
  rw [hm, List.map_append, List.map_cons] at hordered
  obtain ⟨-, hlater, -⟩ := List.pairwise_append.mp hordered
  exact List.forall_mem_cons.mpr ⟨.refl _, (List.pairwise_cons.mp hlater).1⟩

/-- What has evolved goes on to evolve. -/
theorem Way.evolved (h : m₀.Way True m) (h₀ : m₀.Evolved start) : m.Evolved start := by
  induction h with
  | refl => exact h₀
  | change _ hf ih => exact ih.later (hf.evolves _)
  | alloc _ ih | free _ _ ih | guard _ _ ih | unguard _ _ ih =>
    exact ih.later (World.evolves_of_same rfl rfl)
  | note _ event he ih =>
    refine ih.note fun callee hcallee => ?_
    rw [he trivial] at hcallee
    cases hcallee
  | @enter m _ callee function hheld args receiver ih =>
    refine ih.note fun id hid => ?_
    cases hid
    exact ⟨function, args, receiver, rfl, hheld⟩

end Machine

namespace Outcome

variable {α : Type} {start : World} {o : Outcome α} {P : World → Prop}

theorem mem_worlds_of_observed {w : World} (hw : w ∈ o.observed) : w ∈ o.machine.worlds := by
  cases o with
  | done a m | raised fault m => exact List.mem_reverse.mp hw
  | stopped halt => exact List.mem_cons_of_mem _ (List.mem_reverse.mp hw)

theorem observes_iff : o.Observes P ↔ ∀ w ∈ o.observed, P w := by
  cases o with
  | done a m | raised fault m =>
    simp only [Observes, observed, List.mem_reverse, List.forall_mem_cons, List.forall_mem_map]
  | stopped halt => simp only [Observes, observed, List.mem_reverse, List.forall_mem_map]

theorem observed_evolves (h : o.machine.Evolved start) : o.observed.Pairwise World.Evolves := by
  cases o with
  | done a m | raised fault m => exact List.pairwise_reverse.mpr h.ordered
  | stopped halt => exact List.pairwise_reverse.mpr (List.pairwise_cons.mp h.ordered).2

theorem moments_eq (o : Outcome α) : o.machine.moments = o.moments := by
  cases o <;> rfl

end Outcome

/-- However a session ends, its machine has come from its first world. -/
theorem Session.evolved_runWithin (b : Budget) (s : Session) :
    (s.runWithin b).machine.Evolved (.initial s.config) :=
  (Act.ways_session b s.steps _).evolved (Machine.evolved_start _)

end Enclave
