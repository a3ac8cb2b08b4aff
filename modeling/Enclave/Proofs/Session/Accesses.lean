import Enclave.Proofs.Host.Blocks
import Enclave.Proofs.Session.Tallies

/-! # Accesses of runs

A run that begins while nothing is being accessed never meets an access in progress. Whenever host code
takes over, all accesses have ended, so whatever it does is allowed to it.
-/
namespace Enclave

open Act

namespace Act

variable {α : Type} {x : Act α} {m : Machine} {rules : Rules}

/-- From `m` the act never meets an access in progress: none is at any moment that it notes, none has
stopped it, and it goes and ends as it does where all accesses are allowed and nothing is hidden. -/
structure Undisturbed (x : Act α) (m : Machine) : Prop where
  moments : AccessFree m.moments (x m).machine.moments
  unstopped : ∀ halt, x m = .stopped halt → halt.why = .exhausted
  same : x m.unlocked = (x m).unlocked

theorem Tidy.undisturbed {due : List Nat} {owes : α → List Nat} (h : Tidy rules [] due x owes)
    (ho : rules.own → m.moments = []) (hm : m.world.guards = []) : x.Undisturbed m := by
  obtain ⟨hunder, hsame⟩ := h.calm ho m (Machine.under_start hm)
  cases hr : x m with
  | done a m' | raised fault m' =>
    rw [hr] at hunder
    refine ⟨?_, fun halt hhalt => ?_, hsame⟩
    · rw [hr]
      exact hunder.moments
    · rw [hr] at hhalt
      cases hhalt
  | stopped halt =>
    rw [hr] at hunder
    refine ⟨?_, fun halt' hhalt => ?_, hsame⟩
    · rw [hr]
      exact hunder.2
    · rw [hr] at hhalt
      cases hhalt
      exact hunder.1

end Act

/-- Whatever a host asks for and whatever a native function does, in any session, as long as the host
itself accesses nothing when the run begins: no callback starts while something is being accessed, no
access is given up on, and none is refused, for the run is the one of a world in which all accesses are
allowed and nothing is hidden. -/
theorem accesses_undisturbed (b : Budget) (m : Machine) (hm : m.world.guards = []) :
    (∀ scope base (o : HostOperation), (o.act (b.surroundings scope) base).Undisturbed m) ∧
    (∀ scope callee f argc argv receiver,
      ((b.surroundings scope).call callee f argc argv receiver).Undisturbed m) ∧
    (∀ scope base marks action,
      (carryOut (b.surroundings scope) base marks action).Undisturbed m) ∧
    (∀ steps, (∀ step ∈ steps, Step.isPlain step = true) → m.moments = [] →
      (Session.act b steps).Undisturbed m) ∧
    (∀ (w : World) (g : Guard) (id : CellId),
      w.unlocked.allows g = true ∧ w.unlocked.visible? id = w.heap.payload? id) := by
  have hc : ∀ scope, (b.surroundings scope).call.Orderly ⟨False, False⟩ := fun scope =>
    orderly_callNative _ _ _
  refine ⟨?_, ?_, ?_, ?_, ?_⟩
  · exact fun scope base o => (o.tidy_act (hc scope) base).undisturbed False.elim hm
  · exact fun scope callee f argc argv receiver =>
      (hc scope callee f argc argv receiver).undisturbed False.elim hm
  · exact fun scope base marks action =>
      (tidy_carryOut (hc scope) False.elim base marks).undisturbed False.elim hm
  · intro steps hplain hmoments
    have hneat : Neat sessionTerms [] (Session.act b steps) :=
      tidy_session trivial b hplain False.elim
    exact hneat.undisturbed (fun _ => hmoments) hm
  · exact fun w g id => ⟨w.allows_unlocked g, by simp [World.visible?, World.canRead, World.unlocked]⟩

/-- A closure is called that hands a closure over, counts the closures and writes to its receiver. Each
of the three is answered while the call goes on. -/
theorem accesses_undisturbed_reentrant :
    let body : HostFunction := fun _ _ receiver =>
      .createFunction none [] (fun _ _ _ => .finish .null) fun _ =>
        .request .bindingCount fun _ =>
          .request (.arrayPush ⟨receiver.handle?⟩ .null) fun _ => .finish .null
    let m : Machine := ⟨((World.initial .default).bind none [] body).install (.array #[]), []⟩
    let call := ((⟨1, 0⟩ : Budget).surroundings 0).call none (.closure (some 0)) 0 none
      (some (.ofHandle .array 0))
    m.world.guards = [] ∧ (call m).machine.moments.length = 6 ∧ call.Undisturbed m := by
  intro body m call
  have hm : m.world.guards = [] := rfl
  refine ⟨hm, by decide +kernel, ?_⟩
  exact (accesses_undisturbed ⟨1, 0⟩ m hm).2.1 0 none (.closure (some 0)) 0 none _

end Enclave
