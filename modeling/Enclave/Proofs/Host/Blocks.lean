import Enclave.Proofs.Act.Calm
import Enclave.Proofs.Act.Trail
import Enclave.Proofs.Host.Tidy
import Enclave.Proofs.Script.Reaches

/-! # Text blocks are given back once

Whatever a host asks for, and whatever scripts and host code do in between, every text block that was
handed out on the way has been given back exactly once when the host is answered, and no other block
has. A call owes the block of its answer, which the runtime copies before it gives the block back.
-/
namespace Enclave

/-- What a host can ask for: a request, or one of the two that hand a closure over. -/
inductive HostOperation where
  | request (r : Request)
  | register (name : String) (label : Option String) (captured : List Value) (body : HostFunction)
  | createFunction (label : Option String) (captured : List Value) (body : HostFunction)

namespace HostOperation

def Result : HostOperation → Type
  | request r => r.Reply
  | register _ _ _ _ => Except HostError Unit
  | createFunction _ _ _ => View .function

def act (on : Surroundings) (base : Nat) : (o : HostOperation) → Act o.Result
  | request r => Act.perform on base r
  | register name label captured body => Act.registerClosure on base name label captured body
  | createFunction label captured body => Act.createClosure base label captured body

theorem tidy_act {terms : Act.Terms} {on : Surroundings} (hc : on.call.Orderly terms) (base : Nat)
    (o : HostOperation) : Act.Neat terms [] (o.act on base) := by
  cases o with
  | request r => exact Act.tidy_perform hc.conducts base r
  | register name label captured body => exact Act.tidy_registerClosure base name label captured body
  | createFunction label captured body => exact Act.tidy_createClosure base label captured body

end HostOperation

namespace Machine

/-- The blocks handed out between two machines, all of which are given back by then, each once, and no
others. -/
structure Settles (m m' : Machine) : Prop where
  trail : ∃ returned, m.Trail returned m'
  once : ∀ returned, m.Trail returned m' →
    returned.Perm (m.world.ledger.fresh m'.world.ledger)
  outstanding : m'.world.ledger.outstanding = m.world.ledger.outstanding
  live : m'.world.ledger.live = m.world.ledger.live

theorem Settles.of_owes {m m' : Machine} (ht : ∃ returned, m.Trail returned m')
    (h : m.world.ledger.Owes [] m'.world.ledger) : m.Settles m' :=
  have hs := h.settled
  ⟨ht, fun returned hr => hs.once returned hr.course, hs.outstanding, hs.live⟩

end Machine

namespace Outcome

variable {α : Type}

/-- The act has settled what it did with text blocks, whether it ended with a result or with a fault. If
it stopped, its budget was used up, unless something was being accessed before it began. -/
def Settles (m : Machine) : Outcome α → Prop
  | .done _ m' | .raised _ m' => m.Settles m'
  | .stopped halt => m.world.guards = [] → halt.why = .exhausted

/-- The call owes the block of its answer. The runtime takes a copy, which leaves all blocks as they
are, and then gives that block back. -/
def SettlesAdopted (m : Machine) : Outcome Record → Prop
  | .done r m₁ =>
    m.world.ledger.Owes r.textBlock?.toList m₁.world.ledger ∧
    ∃ copied m', Act.consume r m₁ = .done () copied ∧
      copied.world.ledger = m₁.world.ledger ∧
      (r.kind? = some .string → copied.world.top = .scalar (.string r.lossyText)) ∧
      Act.freeText r.textBlock? copied = .done () m' ∧
      Act.adoptReturn r m₁ = .done () m' ∧ m.Settles m'
  | .raised _ m' => m.Settles m'
  | .stopped halt => m.world.guards = [] → halt.why = .exhausted

end Outcome

namespace Act

variable {α : Type} {x : Act α} {r : Record} {m m' : Machine}

/-- All text is accounted for, and no operation of a host looks at moments. -/
def hostTerms : Terms :=
  ⟨True, False⟩

theorem Tidy.exhausted_of_stopped {due : List Nat} {owes : α → List Nat} {halt : Halt}
    (h : Tidy hostTerms [] due x owes) (hrun : x m = .stopped halt) (hm : m.world.guards = []) :
    halt.why = .exhausted := by
  have hunder := (h.calm False.elim m (Machine.under_start hm)).1
  rw [hrun] at hunder
  exact hunder.1

theorem Neat.settles (h : Neat hostTerms [] x) (m : Machine) : (x m).Settles m := by
  have htrail := h.trails m
  have hpays := h.pays trivial m _ (.refl _)
  cases hr : x m with
  | done a m' | raised fault m' =>
    rw [hr] at htrail hpays
    exact .of_owes htrail hpays
  | stopped halt => exact h.exhausted_of_stopped hr

/-- The copy of a record's slot is made before anything is given back. -/
theorem consume_copies (r : Record) (m : Machine) :
    ∃ copied, consume r m = .done () copied ∧ copied.world.ledger = m.world.ledger ∧
      (r.kind? = some .string → copied.world.top = .scalar (.string r.lossyText)) := by
  cases hs : r.slot with
  | cell id =>
    have hrun : consume r m = .done () m := by
      unfold consume
      rw [hs]
      rfl
    refine ⟨m, hrun, rfl, fun hk => ?_⟩
    simp [Record.slot, hk] at hs
  | scalar v =>
    have hrun : consume r m = .done () { m with world := m.world.drop.push v } := by
      unfold consume
      rw [hs]
      rfl
    refine ⟨_, hrun, World.Change.drop.ledger _, fun hk => ?_⟩
    have hv : v = .string r.lossyText := by simpa [Record.slot, hk] using hs.symm
    rw [hv]
    rfl

theorem freeText_done (block : Option Nat) (m : Machine) :
    ∃ m', freeText block m = .done () m' := by
  cases block with
  | none => exact ⟨m, rfl⟩
  | some b => exact ⟨_, rfl⟩

theorem Tidy.settlesAdopted {x : Act Record}
    (h : Tidy hostTerms [] [] x fun r => r.textBlock?.toList) (m : Machine) :
    (x m).SettlesAdopted m := by
  have htrail := h.trails m
  have hpays := h.pays trivial m _ (.refl _)
  cases hr : x m with
  | done r m₁ =>
    rw [hr] at htrail hpays
    obtain ⟨copied, hcopy, hledger, htext⟩ := consume_copies r m₁
    obtain ⟨m', hfree⟩ := freeText_done r.textBlock? copied
    have hadopt : adoptReturn r m₁ = .done () m' := (bind_done hcopy).trans hfree
    refine ⟨hpays, copied, m', hcopy, hledger, htext, hfree, hadopt, ?_⟩
    obtain ⟨returned, ht⟩ := htrail
    have htidy : Tidy hostTerms [] r.textBlock?.toList (adoptReturn r) fun _ => [] :=
      tidy_adoptReturn r
    obtain ⟨returned', ht'⟩ := htidy.trails m₁
    have hpays' := htidy.pays trivial m₁ _ hpays
    rw [hadopt] at ht' hpays'
    exact .of_owes ⟨_, ht.trans ht'⟩ hpays'
  | raised fault m' =>
    rw [hr] at htrail hpays
    exact .of_owes htrail hpays
  | stopped halt => exact h.exhausted_of_stopped hr

end Act

/-- Whatever state a machine is in, when an operation of the host is answered, every text block that was
handed out since it began has been given back exactly once, and the same blocks as before are out. What
a native function answers is copied before its block is given back. -/
theorem blocks_returned_once (b : Budget) (scope : ScopeId) (base : Nat) (m : Machine) :
    (∀ o : HostOperation, (o.act (b.surroundings scope) base m).Settles m) ∧
    ∀ callee f argc argv receiver,
      ((b.surroundings scope).call callee f argc argv receiver m).SettlesAdopted m := by
  have hc : (b.surroundings scope).call.Orderly Act.hostTerms := Act.orderly_callNative _ _ _
  constructor
  · exact fun o => (o.tidy_act hc base).settles m
  · exact fun callee f argc argv receiver => (hc callee f argc argv receiver).settlesAdopted m

end Enclave
