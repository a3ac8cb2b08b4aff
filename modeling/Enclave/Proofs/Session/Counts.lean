import Enclave.Proofs.Session.Run

/-! # Reference counts of sessions

At every moment at which a host is in control the count of a cell is the number of its owners, and of
the references to it that a direct call without a place for them has lost. Whatever was lent to a
call in progress is alive.
-/
namespace Enclave

open Act

/-- What holds of the world at every moment that a host can observe, and of the last one. -/
def Outcome.Observes {α : Type} (P : World → Prop) : Outcome α → Prop
  | .done _ m | .raised _ m => P m.world ∧ ∀ mo ∈ m.moments, P mo.world
  | .stopped halt => ∀ mo ∈ halt.machine.moments, P mo.world

theorem Recorded.observed {lossless : Prop} {moments : List Moment}
    (h : Recorded lossless moments) :
    ∀ mo ∈ moments, mo.world.heap.Counted mo.world.outside ∧ (lossless → mo.world.lost = []) :=
  fun _ hmo =>
    have ⟨_, hfits⟩ := h.fits_of_mem hmo
    ⟨hfits.counted, hfits.whole⟩

/-- In every session, within any budget, the owners of every cell make up its count at every moment,
but for references that direct calls lost; a session whose direct calls have a place for all that
they are given loses none. -/
theorem runWithin_accounted (b : Budget) (s : Session) :
    (s.runWithin b).Observes fun w =>
      w.Accounted ∧ (Step.takesAll s.steps = true → w.Exact) := by
  have hw : ∀ w : World, w.heap.Counted w.outside →
      (Step.takesAll s.steps = true → w.lost = []) →
      w.Accounted ∧ (Step.takesAll s.steps = true → w.Exact) := fun w hc hl =>
    have ha := World.accounted_of_counted hc
    ⟨ha, fun h => ha.exact_iff.mpr fun id hid => by simp [hl h] at hid⟩
  have hends : Session.Ends (Step.takesAll s.steps = true) (s.runWithin b) := s.ends_runWithin b id
  generalize s.runWithin b = outcome at hends ⊢
  cases hends with
  | done summary w older hs hstack hbalanced hrecorded =>
    have hrest := World.rest_ended hs.counted
    exact ⟨hw _ hrest.counted fun h => hrest.lost.trans (hs.whole h),
      fun mo hmo => hw _ (hrecorded.observed mo hmo).1 (hrecorded.observed mo hmo).2⟩
  | stopped halt hrecorded =>
    exact fun mo hmo => hw _ (hrecorded.observed mo hmo).1 (hrecorded.observed mo hmo).2

/-! ## Lent handles -/

/-- The moments of an outcome, newest first. -/
def Outcome.moments {α : Type} : Outcome α → List Moment
  | .done _ m | .raised _ m => m.moments
  | .stopped halt => halt.machine.moments

/-- What a call of a function cell was lent is alive when the call begins and, at every moment up to
the one at which it returns, is still alive with the kind that it had. -/
def Lent (moments : List Moment) : Prop :=
  ∀ newer mo older, moments = newer ++ mo :: older →
    ∀ call, call = mo ∨ call ∈ openCalls older → ∀ id ∈ call.event.lent,
      ∃ kind, call.world.heap.kind? id = some kind ∧ mo.world.heap.kind? id = some kind

theorem Recorded.lent {lossless : Prop} {moments : List Moment} (h : Recorded lossless moments) :
    Lent moments := by
  rintro newer mo older rfl call hc id hid
  obtain ⟨hl, hk⟩ := h.fits.lent call hc id hid
  obtain ⟨cell, hcell⟩ := Heap.isLive_iff.mp hl
  have hkind : call.world.heap.kind? id = some cell.kind := by simp [Heap.kind?, hcell]
  exact ⟨cell.kind, hkind, hk.trans hkind⟩

/-- In every session, whatever host code does while it runs, handles that a call lends to it outlive
the call. A number is never given out twice, so what is alive at the end was alive all along. -/
theorem runWithin_lent (b : Budget) (s : Session) : Lent (s.runWithin b).moments := by
  have hends : Session.Ends False (s.runWithin b) := s.ends_runWithin b False.elim
  generalize s.runWithin b = outcome at hends ⊢
  cases hends with
  | done summary w older hs hstack hbalanced hrecorded => exact hrecorded.lent
  | stopped halt hrecorded => exact hrecorded.lent

end Enclave
