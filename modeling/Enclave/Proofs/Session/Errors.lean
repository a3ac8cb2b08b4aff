import Enclave.Proofs.Host.Errors
import Enclave.Proofs.Session.Tallies

/-! # Errors in sessions

While a host works on a cell itself, the payload of that cell is being accessed. No other access goes on
whenever host code is in control. So as soon as no payload is being accessed, nothing is, and whether an
operation errs depends on its input alone.
-/
namespace Enclave

open Act

/-- Nothing but payloads is being accessed. -/
def World.OnlyPayloads (w : World) : Prop :=
  ∀ g ∈ w.guards, ∃ id, g.place = .payload id

/-- Just these accesses are in progress, and only payloads were being accessed at all moments. -/
structure Machine.Guarded (guards : List Guard) (m : Machine) : Prop where
  guards : m.world.guards = guards
  moments : ∀ mo ∈ m.moments, mo.world.OnlyPayloads

namespace Outcome

variable {α : Type}

/-- The same of the end of an act. Of one that has stopped only the moments count. -/
def Guarded (guards : List Guard) : Outcome α → Prop
  | .done _ m | .raised _ m => m.Guarded guards
  | .stopped halt => ∀ mo ∈ halt.machine.moments, mo.world.OnlyPayloads

end Outcome

namespace Act

variable {α β : Type} {rules : Rules} {held own guards : List Guard} {due : List Nat} {x : Act α}
  {owes : α → List Nat} {on : Surroundings}

/-! ## Accesses of acts -/

/-- The act ends with the accesses in progress with which it began. -/
def Steady (guards : List Guard) (x : Act α) : Prop :=
  ∀ m : Machine, m.Guarded guards → (x m).Guarded guards

theorem steady_pure (a : α) : Steady guards (pure a) :=
  fun _ hm => hm

theorem steady_stop (why : Stop) : Steady guards (stop why : Act α) :=
  fun _ hm => hm.moments

theorem Steady.bind {f : α → Act β} (hx : Steady guards x) (hf : ∀ a, Steady guards (f a)) :
    Steady guards (x >>= f) := by
  intro m hm
  have h := hx m hm
  change (Act.bind x f m).Guarded guards
  unfold Act.bind
  cases hr : x m with
  | done a m₁ =>
    rw [hr] at h
    exact hf a m₁ h
  | raised fault m₁ | stopped halt =>
    rw [hr] at h
    exact h

theorem steady_world {f : World → Act β} (hf : ∀ w, Steady guards (f w)) :
    Steady guards (world >>= f) :=
  fun m hm => hf m.world m hm

theorem steady_change {f : World → World} (hf : World.Deed f) : Steady guards (change f) :=
  fun m hm => ⟨(hf.guards m.world).trans hm.guards, hm.moments⟩

/-- A moment can be noted while payloads are accessed. -/
theorem steady_note (event : Event) (hg : ∀ g ∈ guards, ∃ id, g.place = .payload id) :
    Steady guards (note event) := by
  refine fun m hm => ⟨hm.guards, List.forall_mem_cons.mpr ⟨?_, hm.moments⟩⟩
  rwa [World.OnlyPayloads, hm.guards]

/-- An access that is allowed ends before the act does, and one that is refused does not begin. -/
theorem Steady.accessing {g : Guard} {refused : Act α} (hx : Steady (g :: guards) x)
    (hr : Steady guards refused) : Steady guards (accessing g x refused) := by
  refine steady_world fun w => ?_
  split
  · intro m hm
    have h := hx { m with world := m.world.guard g } ⟨congrArg _ hm.guards, hm.moments⟩
    unfold guarded
    cases hrun : x { m with world := m.world.guard g } with
    | done a m₁ | raised fault m₁ =>
      rw [hrun] at h
      exact ⟨by simp [World.unguard, h.guards], h.moments⟩
    | stopped halt =>
      rw [hrun] at h
      exact h
  · exact hr

theorem Steady.attempt (hx : Steady guards x) : Steady guards (attempt x) := by
  intro m hm
  have h := hx m hm
  unfold Act.attempt
  cases hr : x m <;> rw [hr] at h <;> exact h

/-- Tidy acts are steady in addition to what the host itself accesses, which are payloads. -/
theorem Tidy.steady (h : Tidy rules held due x owes) (hown : ∀ g ∈ own, ∃ id, g.place = .payload id) :
    Steady (held ++ own) x := by
  induction h with
  | pure a => exact steady_pure a
  | raise fault => exact fun m hm => hm
  | exhausted => exact steady_stop _
  | bind _ _ ihx ihf => exact ihx.bind ihf
  | look _ _ ih => exact steady_world ih
  | change hf => exact steady_change hf
  | note event _ => exact steady_note event hown
  | enter callee function args receiver _ _ ih =>
    refine steady_world fun w => ?_
    split
    · exact (steady_note _ hown).bind fun _ => ih w
    · exact steady_stop _
  | accessing _ _ _ ihx ihr => exact ihx.accessing ihr
  | surely _ _ ih => exact ih.accessing (steady_stop _)
  | attempt _ _ _ ih => exact ih.attempt
  | alloc _ ih => exact fun m hm => ih _ _ ⟨hm.guards, hm.moments⟩
  | free block => exact fun m hm => ⟨hm.guards, hm.moments⟩
  | consult _ f _ => exact fun m hm => hm
  | lose _ a => exact steady_pure a

/-! ## Steps -/

theorem Steady.borrowing (hx : ∀ g : Guard, (∃ id, g.place = .payload id) → Steady (g :: own) x)
    (register : String) (exclusive : Bool) : Steady own (borrowing register exclusive x) := by
  refine steady_world fun w => ?_
  split
  · exact steady_pure _
  · rename_i id _
    refine (steady_change (.share _)).bind fun _ => (steady_change .hold).bind fun _ => ?_
    refine Steady.bind ?_ fun _ => (steady_change .letGo).bind fun _ => steady_pure _
    exact Steady.accessing ((hx _ ⟨id, rfl⟩).bind fun _ => steady_pure _) (steady_pure _)

mutual

theorem steady_performStep (hc : on.call.Conducts sessionRules) :
    ∀ (step : Step) (own : List Guard), (∀ g ∈ own, ∃ id, g.place = .payload id) →
      ∀ marks, Steady own (performStep on marks step)
  | .act action into, own, hown, marks => by
    rw [performStep]
    exact (tidy_performAction trivial hc False.elim marks into).steady hown
  | .borrowed register exclusive steps, own, hown, marks => by
    have hreport : ∀ marks outcome, Steady own (reportStep marks outcome) := fun marks outcome =>
      (show Neat sessionRules [] _ from tidy_reportStep trivial marks outcome).steady hown
    rw [performStep]
    refine (Steady.borrowing (fun g hg => ?_) register exclusive).bind fun outcome => ?_
    · exact steady_performSteps hc steps (g :: own) (List.forall_mem_cons.mpr ⟨hg, hown⟩) marks
    · cases outcome with
      | ok reports => exact hreport _ _
      | error a => exact hreport _ _

theorem steady_performSteps (hc : on.call.Conducts sessionRules) :
    ∀ (steps : List Step) (own : List Guard), (∀ g ∈ own, ∃ id, g.place = .payload id) →
      ∀ marks, Steady own (performSteps on marks steps)
  | [], own, hown, marks => by
    rw [performSteps]
    exact steady_pure _
  | step :: rest, own, hown, marks => by
    rw [performSteps]
    exact (steady_performStep hc step own hown marks).bind fun r =>
      (steady_performSteps hc rest own hown r.2).bind fun _ => steady_pure _

end

theorem steady_session (b : Budget) (steps : List Step) : Steady [] (Session.act b steps) := by
  have hown : ∀ g ∈ ([] : List Guard), ∃ id, g.place = .payload id := fun g hg => by cases hg
  have hnote : Neat sessionRules [] (note .closing) := .note _ fun _ => rfl
  have hend : Neat sessionRules [] endSession := tidy_endSession
  refine steady_world fun w => Steady.bind ?_ fun r => (hnote.steady hown).bind fun _ =>
    (hend.steady hown).bind fun _ => steady_world fun w => steady_pure _
  exact steady_performSteps (conducts_callNative _ _ _) steps [] hown _

end Act

theorem onlyPayloads_runWithin (b : Budget) (s : Session) :
    ∀ mo ∈ (s.runWithin b).moments, mo.world.OnlyPayloads := by
  have h : (s.runWithin b).Guarded [] := steady_session b s.steps ⟨.initial s.config, []⟩
    ⟨rfl, fun mo hmo => by cases hmo⟩
  cases hr : s.runWithin b with
  | done summary m | raised fault m =>
    rw [hr] at h
    exact h.moments
  | stopped halt =>
    rw [hr] at h
    exact h

theorem Heap.proper_runWithin (b : Budget) (s : Session) :
    ∀ mo ∈ (s.runWithin b).moments, mo.world.heap.Proper := by
  have hends : Session.Ends False (s.runWithin b) := s.ends_runWithin b False.elim
  generalize s.runWithin b = outcome at hends ⊢
  cases hends with
  | done summary w older hs hstack hbalanced hrecorded =>
    exact fun mo hmo => (hrecorded.observed mo hmo).1.proper
  | stopped halt hrecorded => exact fun mo hmo => (hrecorded.observed mo hmo).1.proper

/-! ## Errors -/

/-- At every moment of a session at which host code is in control only payloads are being accessed. If
none is, an operation whose views are tagged with the kinds of their cells errs if and only if its own
input is bad. It never ends with a fault, it stops only when its budget is used up, and unless it is to
run code it always comes to an answer. What a value becomes as a record does not depend on the state. -/
theorem operations_fail_exactly (b b' : Budget) (s : Session) :
    (∀ v : Value, v.lend.isOk = false ↔ ¬ v.IsSendable) ∧
    ∀ mo ∈ (s.runWithin b).moments, mo.world.OnlyPayloads ∧
      ((∀ g ∈ mo.world.guards, ∀ id, g.place ≠ .payload id) →
        ∀ (o : HostOperation) (scope : ScopeId) (base : Nat) (moments : List Moment),
          o.IsTagged mo.world →
            let outcome := o.act (b'.surroundings scope) base ⟨mo.world, moments⟩
            (∀ reply m, outcome = .done reply m → (o.Fails reply ↔ o.IsBad mo.world)) ∧
            (¬ o.Runs ∨ o.IsBad mo.world → ∃ reply m, outcome = .done reply m) ∧
            (∀ fault m, outcome ≠ .raised fault m) ∧
            (∀ halt, outcome = .stopped halt → halt.why = .exhausted)) := by
  refine ⟨Value.isOk_lend, fun mo hmo => ?_⟩
  have honly := onlyPayloads_runWithin b s mo hmo
  have hproper := Heap.proper_runWithin b s mo hmo
  refine ⟨honly, fun hnone o scope base moments htagged => ?_⟩
  have hguards : mo.world.guards = [] := List.eq_nil_iff_forall_not_mem.mpr fun g hg =>
    have ⟨id, hid⟩ := honly g hg
    hnone g hg id hid
  have hfails := o.fails_iff (b'.surroundings scope) base (m := ⟨mo.world, moments⟩) hproper
    (World.isOpen_of_guards hguards) (faultless_callNative _ _) htagged
  have htidy : Neat hostTerms [] (o.act (b'.surroundings scope) base) :=
    o.tidy_act (orderly_callNative _ _ _) base
  exact ⟨hfails.1, hfails.2, o.faultless_act _ _ _, fun _ h => htidy.exhausted_of_stopped h hguards⟩

/-- After a session has made an array, to write into the array far behind its end is answered with an
error. -/
theorem operations_fail_exactly_far :
    let s : Session := ⟨.default, [.act .createArray (some "a")]⟩
    let o : HostOperation := .request (.arraySet ⟨some 0⟩ (maxElementGap + 1) .null)
    ∃ mo ∈ (s.runWithin .standard).moments,
      (∀ g ∈ mo.world.guards, ∀ id, g.place ≠ .payload id) ∧ o.IsTagged mo.world ∧
      ∃ reply m, o.act (Budget.standard.surroundings 0) 0 ⟨mo.world, []⟩ = .done reply m ∧
        o.Fails reply := by
  intro s o
  have hmade : ∃ mo ∈ (s.runWithin .standard).moments,
      mo.world.heap.payload? 0 = some (.array #[]) ∧ mo.world.guards = [] := by
    refine ⟨_, List.mem_cons_of_mem _ List.mem_cons_self, ?_, rfl⟩
    change (((Heap.empty.alloc (.array #[])).releaseSlots [.null]).releaseSlots []).payload? 0 = _
    rw [Heap.releaseSlots_nil, Slot.null, Heap.releaseSlots_scalar]
    rfl
  obtain ⟨mo, hmo, hpayload, hguards⟩ := hmade
  have hnone : ∀ g ∈ mo.world.guards, ∀ id, g.place ≠ .payload id := by simp [hguards]
  have htagged : o.IsTagged mo.world := by
    rintro _ ⟨⟩
    rw [(Heap.proper_runWithin _ s mo hmo).kind? 0, hpayload]
    rfl
  have hbad : o.IsBad mo.world := .inr (.inr (.inr ⟨0, #[], rfl, hpayload, by decide⟩))
  obtain ⟨hfails, hanswers, -⟩ :=
    ((operations_fail_exactly .standard .standard s).2 mo hmo).2 hnone o 0 0 [] htagged
  obtain ⟨reply, m, hrun⟩ := hanswers (.inr hbad)
  exact ⟨mo, hmo, hnone, htagged, reply, m, hrun, (hfails reply m hrun).mpr hbad⟩

end Enclave
