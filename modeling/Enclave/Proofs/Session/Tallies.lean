import Enclave.Proofs.Act.Trail
import Enclave.Proofs.Heap.Tally
import Enclave.Proofs.Session.Counts
import Enclave.Proofs.Session.Ways

/-! # Counters in sessions

At every moment at which a host is in control the counters of the heap account for the live cells and
for the references to them, and from each of these moments to any later one no counter goes down.
-/
namespace Enclave

theorem Act.trails_session (b : Budget) (steps : List Step) : Act.Trails (Session.act b steps) :=
  (Act.ways_session b steps).trails

/-! ## Observations -/

namespace Outcome

variable {α : Type}

/-- The worlds that a host can observe, in the order of time. -/
def observed : Outcome α → List World
  | .done _ m | .raised _ m => (m.world :: m.moments.map (·.world)).reverse
  | .stopped halt => (halt.machine.moments.map (·.world)).reverse

theorem observed_ordered {o : Outcome α} (h : o.machine.Ordered) :
    o.observed.Pairwise fun earlier later => earlier.heap.tally.Le later.heap.tally := by
  have hworlds := List.pairwise_map.mp h
  cases o with
  | done a m | raised fault m => exact List.pairwise_reverse.mpr hworlds
  | stopped halt => exact List.pairwise_reverse.mpr (List.pairwise_cons.mp hworlds).2

end Outcome

/-- In every session, within any budget, the counters account for the heap at every moment that a host
can observe, and what is counted between two such moments can always be told from the counters. -/
theorem runWithin_tallied (b : Budget) (s : Session) :
    (s.runWithin b).Observes (fun w => w.heap.Tallied) ∧
      (s.runWithin b).observed.Pairwise fun earlier later =>
        earlier.heap.tally.Le later.heap.tally ∧
          later.heap.tally.Continues earlier.heap.tally := by
  constructor
  · have hends : Session.Ends False (s.runWithin b) := s.ends_runWithin b False.elim
    generalize s.runWithin b = outcome at hends ⊢
    cases hends with
    | done summary w older hs hstack hbalanced hrecorded =>
      have hrest := World.rest_ended hs.counted
      exact ⟨hrest.counted.tallied, fun mo hmo => (hrecorded.observed mo hmo).1.tallied⟩
    | stopped halt hrecorded => exact fun mo hmo => (hrecorded.observed mo hmo).1.tallied
  · obtain ⟨returned, htrail⟩ := Act.trails_session b s.steps ⟨.initial s.config, []⟩
    have hstart : (⟨.initial s.config, []⟩ : Machine).Ordered := List.pairwise_singleton _ _
    exact (Outcome.observed_ordered (htrail.ordered hstart)).imp fun hle => ⟨hle, hle.continues⟩

end Enclave
