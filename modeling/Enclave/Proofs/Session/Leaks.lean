import Enclave.Proofs.Session.Counts

/-! # What sessions leave behind

Between two steps of a session a cell is alive if and only if an owner outside the heap, a cycle or
a lost reference leads to it. The end of the session removes the owners and nothing else.
-/
namespace Enclave

namespace World

/-- The slots of the owners that outlast a step: globals, values that closures captured, registers,
and what the host keeps or holds. -/
def lasting (w : World) : List Slot :=
  w.globals ++ w.captured ++ w.registered ++ w.kept ++ w.held

/-- Nothing is in hand, and the live cells are those to which an owner or a leak leads. -/
structure AtRest (lossless : Prop) (w : World) : Prop where
  stack : w.stack = []
  live : ∀ id, w.heap.isLive id = true ↔
    ∃ root, (Slot.cell root ∈ w.lasting ∨ w.Leaks root) ∧ w.heap.Reaches root id
  whole : lossless → w.lost = []

theorem atRest_of_counted {lossless : Prop} {w : World} (hc : w.heap.Counted w.outside)
    (hstack : w.stack = []) (hw : lossless → w.lost = []) : w.AtRest lossless := by
  refine ⟨hstack, fun id => (hc.isLive_iff_reached id).trans ?_, hw⟩
  have hout : ∀ root, 0 < w.outside root ↔ Slot.cell root ∈ w.lasting ∨ Slot.cell root ∈ w.lost := by
    intro root
    have hext : w.external = w.lasting := by simp only [external, lasting, hstack, List.append_nil]
    rw [outside, hext, ← holders_pos, ← holders_pos]
    omega
  refine exists_congr fun root => and_congr_left fun _ => ?_
  rw [hout, Leaks, or_assoc]

end World

/-- A finished session: what is left at its end is what leaks led to before the end, and the
counters are balanced when there were none. -/
def Session.Finishes (outcome : Outcome Session.Summary) : Prop :=
  match outcome with
  | .done summary m => ∃ w older, m.moments = ⟨.closing, w⟩ :: older ∧
    (∀ id, m.world.heap.isLive id = true ↔ ∃ root, w.Leaks root ∧ w.heap.Reaches root id) ∧
    (summary.balanced = true ↔ ∀ id, ¬ w.Leaks id)
  | .raised _ _ => False
  | .stopped _ => True

/-- What holds of the world whenever neither a script nor a call is in progress. -/
def Outcome.Pauses {α : Type} (P : World → Prop) (outcome : Outcome α) : Prop :=
  ∀ mo ∈ outcome.moments, mo.event.isQuiet = true → P mo.world

/-- In every session, within any budget, only cycles and lost references leak; a session whose
direct calls have a place for all that they are given has no lost references. -/
theorem runWithin_leaks (b : Budget) (s : Session) :
    (s.runWithin b).Pauses (World.AtRest (Step.takesAll s.steps = true)) ∧
      Session.Finishes (s.runWithin b) := by
  have hends : Session.Ends (Step.takesAll s.steps = true) (s.runWithin b) := s.ends_runWithin b id
  have hrest : ∀ moments, Recorded (Step.takesAll s.steps = true) moments →
      ∀ mo ∈ moments, mo.event.isQuiet = true →
        mo.world.AtRest (Step.takesAll s.steps = true) := by
    intro moments hrecorded mo hmo hq
    obtain ⟨older, hfits⟩ := hrecorded.fits_of_mem hmo
    exact World.atRest_of_counted hfits.counted (hfits.quiet hq) hfits.whole
  generalize s.runWithin b = outcome at hends ⊢
  cases hends with
  | done summary w older hs hstack hbalanced hrecorded =>
    have hleft := w.isLive_ended hs not_false rfl hstack
    refine ⟨hrest _ hrecorded, w, older, rfl, hleft, ?_⟩
    rw [hbalanced, (World.rest_ended hs.counted).counted.isBalanced_iff]
    constructor
    · intro hdead id hleak
      have hl := (hleft id).mpr ⟨id, hleak, Relation.ReflTransGen.refl⟩
      rw [hdead] at hl
      cases hl
    · intro hnone id
      cases hl : w.ended.heap.isLive id with
      | false => rfl
      | true =>
        obtain ⟨root, hleak, -⟩ := (hleft id).mp hl
        exact (hnone root hleak).elim
  | stopped halt hrecorded => exact ⟨hrest _ hrecorded, trivial⟩

end Enclave
