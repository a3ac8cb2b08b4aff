import Enclave.Proofs.Host.Tagged
import Enclave.Proofs.Session.Errors
import Enclave.Proofs.Session.Evolution

/-! # The shape of the heap in sessions

The heap keeps its shape in every session, and so what a call lends has the tags of its cells. What the
host is given has them too, from any machine in good order and whatever the host has passed.
-/
namespace Enclave

open Act

/-! ## Worlds -/

theorem Heap.shaped_empty : Heap.empty.Shaped :=
  fun id p hp => by simp [Heap.payload?, Heap.cell?, Heap.empty] at hp

theorem observes_proper (b : Budget) (s : Session) :
    (s.runWithin b).Observes (·.heap.Proper) := by
  have hmoments := Heap.proper_runWithin b s
  have hends : Session.Ends False (s.runWithin b) := s.ends_runWithin b False.elim
  generalize s.runWithin b = outcome at hmoments hends ⊢
  cases hends with
  | done summary w older hs hstack hbalanced hrecorded =>
    exact ⟨(World.rest_ended hs.counted).counted.proper, hmoments⟩
  | stopped halt hrecorded => exact hmoments

theorem observes_wellShaped (b : Budget) (s : Session) :
    (s.runWithin b).Observes (·.heap.WellShaped) := by
  have hproper := Outcome.observes_iff.mp (observes_proper b s)
  refine Outcome.observes_iff.mpr fun w hw => ?_
  have hevolved := (s.evolved_runWithin b).since w (Outcome.mem_worlds_of_observed hw)
  exact (hevolved.heap.shaped Heap.shaped_empty).wellShaped (hproper w hw)

/-! ## Calls -/

namespace Moment

variable {mo : Moment} {callee : CellId} {argc : Int} {argv : Option (List Record)}
  {receiver : Option Record}

/-- What a call by way of a function cell lends has the tags of its cells. -/
theorem Opens.matches (h : mo.Opens callee) {function : NativeFunction}
    (hevent : mo.event = .entered (some callee) function argc argv receiver) :
    ∀ r ∈ argv.getD [] ++ receiver.toList, r.Matches mo.world := by
  obtain ⟨_, args, this, hopening, -⟩ := h
  rw [hevent] at hopening
  cases hopening
  intro r hr
  rcases List.mem_append.mp hr with hr | hr
  · obtain ⟨s, -, rfl⟩ := List.mem_map.mp hr
    exact mo.world.matches_lend s
  · obtain ⟨s, -, rfl⟩ := Option.map_eq_some_iff.mp (Option.mem_toList.mp hr)
    exact mo.world.matches_lend s

/-- A call of a closure with not too many arguments can be read, and the closure's code runs on values
that have the tags of their cells. -/
theorem Opens.runs (h : mo.Opens callee) {place : Nat} {binding : Binding}
    (hevent : mo.event = .entered (some callee) (.closure (some place)) argc argv receiver)
    (hp : mo.world.heap.Proper) (hrunning : mo.world.engine.running = true)
    (hbinding : mo.world.engine.bindings[place]? = some binding)
    (hn : argc ≤ mo.world.engine.config.maxArguments) (on : Surroundings) (moments : List Moment) :
    ∃ args this m₁,
      (⟨argc, argv, receiver⟩ : Passed).Reads mo.world.engine.config.maxArguments args this ∧
      callClosure on (some place) ⟨argc, argv, receiver⟩ ⟨mo.world, moments⟩ =
        (runCode on mo.world.stack.length (binding.body binding.captured args this) >>=
          conclude mo.world.stack.length mo.world.engine.config.errorMarker) m₁ ∧
      ∀ v ∈ this :: args, v.Matches m₁.world := by
  have hmatches := h.matches hevent
  obtain ⟨_, slots, this, hopening, -⟩ := h
  rw [hevent] at hopening
  cases hopening
  obtain ⟨args, that, hreads⟩ := World.exists_reads hp slots this (Int.ofNat_le.mp hn)
  obtain ⟨m₁, -, hgains, hrun⟩ := callClosure_reads on hrunning hbinding hreads
    (Machine.Gains.refl ⟨mo.world, moments⟩)
  refine ⟨args, that, m₁, hreads, hrun, fun v hv kind id hid => ?_⟩
  have hpassed : ∀ r ∈ (lending mo.world slots this).records ++ (this.map mo.world.lend).toList,
      r.Matches mo.world := fun r hr => by
    refine hmatches r (List.mem_append.mpr ?_)
    exact (List.mem_append.mp hr).imp List.mem_of_mem_take fun hreceiver => hreceiver
  exact (hgains.heap.kind? id).trans (hreads.matches hpassed v hv kind id hid)

end Moment

/-! ## Methods -/

/-- What is found among the methods of a class is a function. A call of it calls the function, unless the
host is changing the function's cell just then. -/
def World.MethodsCallable (w : World) : Prop :=
  ∀ id name methods, w.heap.payload? id = some (.classDesc name methods) →
    ∀ key s, methods.get? key = some s →
      ∃ f function, s = .cell f ∧ w.heap.payload? f = some (.function function) ∧
        (w.canRead (.payload f) = true → ∀ call receiver args moments,
          callSlot call s receiver args ⟨w, moments⟩ =
            invoke call (some f) function receiver args ⟨w, moments⟩)

theorem World.methodsCallable {w : World} (h : w.heap.WellShaped) : w.MethodsCallable := by
  intro id name methods hid key s hfound
  obtain ⟨f, function, rfl, hpayload⟩ :=
    h.functions id name methods hid s (Table.mem_values_of_get? hfound)
  refine ⟨f, function, rfl, hpayload, fun hread call receiver args moments => ?_⟩
  have hvisible : w.visible? f = some (.function function) := by
    rw [World.visible?, if_pos hread, hpayload]
  unfold callSlot
  rw [bind_done (nativeOf_eq hvisible)]
  rfl

/-! ## Sessions -/

/-- The heap keeps its shape in every session. At all times the heap is well shaped, no cell that was
there earlier is of another kind later or has come back, and the methods of classes can be called. A
call by way of a function cell lends records that have the tags of their cells, and if it runs a closure
the closure's code gets values that have them. From any machine in good order, and whatever the host
passes, each value or record that it is given has the tag of its cell, and what is asked of a cell of
another kind is answered as if there were no cell. -/
theorem runWithin_wellShaped (b : Budget) (s : Session) :
    (s.runWithin b).Observes (fun w => w.heap.WellShaped ∧ w.MethodsCallable) ∧
    ((s.runWithin b).observed.Pairwise fun earlier later => earlier.heap.Later later.heap) ∧
    (∀ mo ∈ (s.runWithin b).moments, ∀ callee function argc argv receiver,
      mo.event = .entered (some callee) function argc argv receiver →
        (∀ r ∈ argv.getD [] ++ receiver.toList, r.Matches mo.world) ∧
        ∀ place binding, function = .closure (some place) → mo.world.engine.running = true →
          mo.world.engine.bindings[place]? = some binding →
          argc ≤ mo.world.engine.config.maxArguments → ∀ on moments, ∃ args this m₁,
            callClosure on (some place) ⟨argc, argv, receiver⟩ ⟨mo.world, moments⟩ =
              (runCode on mo.world.stack.length (binding.body binding.captured args this) >>=
                conclude mo.world.stack.length mo.world.engine.config.errorMarker) m₁ ∧
            ∀ v ∈ this :: args, v.Matches m₁.world) ∧
    (∀ t keep scope (m m' : Machine), m.Good t keep →
      (∀ (o : HostOperation) reply,
        o.act (b.surroundings scope) keep.length m = .done reply m' →
          ∀ v ∈ o.given reply, v.Matches m'.world) ∧
      (∀ (c : Call) verdict, c.act (b.surroundings scope) keep.length m = .done verdict m' →
        ∀ r, verdict.out = some r → r.Matches m'.world)) ∧
    (∀ (m : Machine) kind id, m.world.heap.kind? id ≠ some kind →
      (∀ on base (c : Call), c.target? = some (kind, id) →
        c.act on base m = c.untargeted.act on base m) ∧
      (kind = .object → objectKeys (some id) m = objectKeys none m)) := by
  have hshaped := Outcome.observes_iff.mp (observes_wellShaped b s)
  have hproper : ∀ mo ∈ (s.runWithin b).moments, mo.world.heap.Proper := Heap.proper_runWithin b s
  have hevolved := s.evolved_runWithin b
  refine ⟨Outcome.observes_iff.mpr fun w hw => ⟨hshaped w hw, World.methodsCallable (hshaped w hw)⟩,
    (Outcome.observed_evolves hevolved).imp fun h => h.heap.later, ?_, ?_, ?_⟩
  · intro mo hmo callee function argc argv receiver hevent
    have hopens : mo.Opens callee := hevolved.openings mo (by rwa [Outcome.moments_eq]) callee
      (by rw [hevent]; rfl)
    refine ⟨hopens.matches hevent, ?_⟩
    rintro place binding rfl hrunning hbinding hn on moments
    obtain ⟨args, this, m₁, -, hrun, hmatches⟩ :=
      hopens.runs hevent (hproper mo hmo) hrunning hbinding hn on moments
    exact ⟨args, this, m₁, hrun, hmatches⟩
  · intro t keep scope m m' hg
    have hc := b.safe_surroundings t scope
    exact ⟨fun o reply hrun => o.matches_given hc hg hrun,
      fun c verdict hrun => c.matches_out hc hg hrun⟩
  · intro m kind id hk
    refine ⟨fun on base c ht => c.act_untargeted on base ht hk, ?_⟩
    rintro rfl
    exact objectKeys_untargeted hk

/-- A task is settled with an object that the host takes for an array. Its result is an object. -/
theorem runWithin_wellShaped_mistagged :
    let m : Machine := ⟨(World.initial .default).install (.object [] none), []⟩
    let on : Surroundings := Budget.standard.surroundings 0
    let settling : HostOperation := .request (.createTask (.handle .array 0))
    let asking : HostOperation := .request (.taskResult (.handle .task 1))
    ¬ (Value.handle .array 0).Matches m.world ∧
      ∃ m₁ m₂, settling.act on 0 m = .done (.ok (.handle .task 1)) m₁ ∧
        asking.act on 0 m₁ = .done (.handle .object 0) m₂ ∧
        (Value.handle .task 1).Matches m₁.world ∧ (Value.handle .object 0).Matches m₂.world := by
  intro m on settling asking
  have hmove : World.Move ⟨0, False, [], True⟩ (World.initial .default) m.world :=
    World.move_installEmpty _ _ _ rfl
  have hg : m.Good ⟨0, False, [], True⟩ [] :=
    (Machine.good_initial .default False True).move hmove List.nil_suffix
  have hsafe : on.call.Safe ⟨0, False, [], True⟩ := safe_callNative _ _ _
  obtain ⟨-, -, -, hgiven, -⟩ := runWithin_wellShaped Budget.standard ⟨.default, []⟩
  obtain ⟨m₁, hsettling⟩ : ∃ m₁, settling.act on 0 m = .done (.ok (.handle .task 1)) m₁ := ⟨_, rfl⟩
  have hg₁ : m₁.Good ⟨0, False, [], True⟩ [] := settling.good_act hsafe hg hsettling
  obtain ⟨m₂, hasking⟩ : ∃ m₂, asking.act on 0 m₁ = .done (.handle .object 0) m₂ := by
    cases hsettling
    exact ⟨_, rfl⟩
  refine ⟨fun h => ?_, m₁, m₂, hsettling, hasking, ?_, ?_⟩
  · cases h .array 0 rfl
  · exact (hgiven _ [] 0 m m₁ hg).1 settling _ hsettling _ (List.mem_singleton.mpr rfl)
  · exact (hgiven _ [] 0 m₁ m₂ hg₁).1 asking _ hasking _ (List.mem_singleton.mpr rfl)

end Enclave
