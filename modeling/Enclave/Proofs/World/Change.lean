import Enclave.Proofs.Heap.Tally
import Enclave.World

/-! # Changes of the world

Every change that an act makes is one of few kinds. None of them has to do with accesses in progress or
with text blocks: it neither looks at them nor alters them. And whatever it does to the heap, the
counters only go up.
-/
namespace Enclave.World

/-- The changes that acts put together, text blocks and accesses apart. -/
inductive Change : (World → World) → Prop
  | push (v : Scalar) : Change (·.push v)
  | share (s : Slot) : Change (·.share s)
  | drop : Change World.drop
  | settle (n : Nat) : Change (·.settle n)
  | settleTo (base : Nat) : Change fun w => w.settle (w.stack.length - 1 - base)
  | unwind (base : Nat) : Change (·.unwind base)
  | replaceBelow (n : Nat) : Change (·.replaceBelow n)
  | secure (base : Nat) (s : Slot) : Change (·.secure base s)
  | secureAll (base : Nat) (slots : List Slot) : Change (·.secureAll base 0 slots)
  | discard (base : Nat) (s : Slot) : Change (·.discard base s)
  | discardAll (base : Nat) (slots : List Slot) : Change (·.discardAll base slots)
  | forget : Change World.forget
  | install (p : Payload) : Change (·.install p)
  | allocArray (n : Nat) : Change (·.allocArray n)
  | allocObject (keys : List String) : Change (·.allocObject keys)
  | allocInstance (id : CellId) : Change (·.allocInstance id)
  | allocFunction (f : NativeFunction) : Change (·.allocFunction f)
  | allocClass (name : String) : Change (·.allocClass name)
  | allocTask : Change World.allocTask
  | exchangePayload (id : CellId) (f : Payload → Slot → Option (Payload × Slot)) :
      Change (·.exchangePayload id f)
  | exchangeGlobal (id : ScopeId) (name : String) : Change (·.exchangeGlobal id name)
  | exchangeRegister (name : String) (kind : Kind) : Change (·.exchangeRegister name kind)
  | addScope : Change World.addScope
  | dropNewestScope : Change World.dropNewestScope
  | removeRegister (name : String) : Change (·.removeRegister name)
  | keep : Change World.keep
  | retrieve (n : Nat) : Change (·.retrieve n)
  | hold : Change World.hold
  | letGo : Change World.letGo
  | bind (label : Option String) (kinds : List Kind) (body : HostFunction) :
      Change (·.bind label kinds body)
  | dropRegisters : Change World.dropRegisters
  | stopRunning : Change fun w => { w with engine := { w.engine with running := false } }
  | dropEngineScope : Change fun w => w.dropScope w.engine.scope
  | dropBindings : Change World.dropBindings
  | dropKept : Change World.dropKept

/-- The world with other accesses in progress and another ledger of text blocks. -/
def framed (w : World) (guards : List Guard) (exclusion : Bool) (ledger : Ledger) : World :=
  { w with guards := guards, exclusion := exclusion, ledger := ledger }

variable {f : World → World} {g : List Guard} {e : Bool} {l : Ledger}

/-! ## Accesses and text blocks -/

section Framed

variable (w : World)

theorem share_framed (s : Slot) :
    (w.framed g e l).share s = (w.share s).framed g e l := by
  cases s with
  | scalar v => rfl
  | cell id => by_cases hl : w.heap.isLive id = true <;> simp [share, framed, hl, World.push]

theorem drop_framed :
    (w.framed g e l).drop = w.drop.framed g e l := by
  cases hs : w.stack <;> simp [drop, framed, hs]

theorem settle_framed (n : Nat) :
    (w.framed g e l).settle n = (w.settle n).framed g e l := by
  cases hs : w.stack <;> simp [settle, framed, hs]

theorem lift_framed (n : Nat) :
    (w.framed g e l).lift n = (w.lift n).framed g e l := by
  cases hs : w.stack.drop n <;> simp [lift, framed, hs]

theorem replaceBelow_framed (n : Nat) :
    (w.framed g e l).replaceBelow n =
      (w.replaceBelow n).framed g e l := by
  cases hs : w.stack with
  | nil => simp [replaceBelow, framed, hs]
  | cons s rest => cases hd : rest.drop n <;> simp [replaceBelow, framed, hs, hd]

theorem secureUnder_framed (base passed : Nat) (s : Slot) :
    (w.framed g e l).secureUnder base passed s =
      (w.secureUnder base passed s).framed g e l := by
  cases s with
  | scalar v => rfl
  | cell id =>
    have habove : (w.framed g e l).above base passed = w.above base passed := rfl
    simp only [secureUnder, habove]
    split
    · exact w.lift_framed _
    · exact w.share_framed _

theorem secureAll_framed (base passed : Nat) (slots : List Slot) :
    (w.framed g e l).secureAll base passed slots =
      (w.secureAll base passed slots).framed g e l := by
  induction slots generalizing w passed with
  | nil => rfl
  | cons s rest ih => rw [secureAll, secureUnder_framed, ih, secureAll]

theorem discard_framed (base : Nat) (s : Slot) :
    (w.framed g e l).discard base s =
      (w.discard base s).framed g e l := by
  cases s with
  | scalar v => rfl
  | cell id =>
    have habove : (w.framed g e l).above base 0 = w.above base 0 := rfl
    simp only [discard, habove]
    split
    · rw [lift_framed, drop_framed]
    · rfl

theorem discardAll_framed (base : Nat) (slots : List Slot) :
    (w.framed g e l).discardAll base slots =
      (w.discardAll base slots).framed g e l := by
  induction slots generalizing w with
  | nil => rfl
  | cons s rest ih => rw [discardAll, discard_framed, ih, discardAll]

theorem allocInstance_framed (id : CellId) :
    (w.framed g e l).allocInstance id =
      (w.allocInstance id).framed g e l := by
  by_cases hl : w.heap.isLive id = true <;> simp [allocInstance, install, framed, hl]

theorem exchangePayload_framed (id : CellId) (f : Payload → Slot → Option (Payload × Slot)) :
    (w.framed g e l).exchangePayload id f =
      (w.exchangePayload id f).framed g e l := by
  cases hs : w.stack with
  | nil => simp [exchangePayload, framed, hs]
  | cons s rest =>
    cases hp : w.heap.payload? id with
    | none => simp [exchangePayload, framed, hs, hp]
    | some p => cases hf : f p s <;> simp [exchangePayload, framed, hs, hp, hf]

theorem exchangeGlobal_framed (id : ScopeId) (name : String) :
    (w.framed g e l).exchangeGlobal id name =
      (w.exchangeGlobal id name).framed g e l := by
  have hscope : (w.framed g e l).scope? id = w.scope? id := rfl
  cases hs : w.stack with
  | nil => simp [exchangeGlobal, framed, hs]
  | cons s rest =>
    simp only [exchangeGlobal, hscope, hs]
    cases w.scope? id <;> simp [framed, setScope, hs]

theorem exchangeRegister_framed (name : String) (kind : Kind) :
    (w.framed g e l).exchangeRegister name kind =
      (w.exchangeRegister name kind).framed g e l := by
  cases hs : w.stack <;> simp [exchangeRegister, framed, hs]

theorem dropScope_framed (id : ScopeId) :
    (w.framed g e l).dropScope id =
      (w.dropScope id).framed g e l := by
  have hscope : (w.framed g e l).scope? id = w.scope? id := rfl
  simp only [dropScope, hscope]
  cases w.scope? id <;> rfl

theorem removeRegister_framed (name : String) :
    (w.framed g e l).removeRegister name =
      (w.removeRegister name).framed g e l := by
  cases hr : w.registers.get? name <;> simp [removeRegister, framed, hr]

theorem keep_framed :
    (w.framed g e l).keep = w.keep.framed g e l := by
  cases hs : w.stack <;> simp [keep, framed, hs]

theorem retrieve_framed (n : Nat) :
    (w.framed g e l).retrieve n =
      (w.retrieve n).framed g e l := by
  cases hs : w.kept.drop n <;> simp [retrieve, framed, hs, World.push]

theorem hold_framed :
    (w.framed g e l).hold = w.hold.framed g e l := by
  cases hs : w.stack <;> simp [hold, framed, hs]

end Framed

/-- What a change does has nothing to do with accesses and text blocks. -/
theorem Change.framed (hf : Change f) (w : World) :
    f (w.framed g e l) = (f w).framed g e l := by
  cases hf with
  | share s => exact w.share_framed s
  | drop => exact w.drop_framed
  | settle n => exact w.settle_framed n
  | settleTo base => exact w.settle_framed _
  | replaceBelow n => exact w.replaceBelow_framed n
  | secure base s => exact w.secureUnder_framed base 0 s
  | secureAll base slots => exact w.secureAll_framed base 0 slots
  | discard base s => exact w.discard_framed base s
  | discardAll base slots => exact w.discardAll_framed base slots
  | allocInstance id => exact w.allocInstance_framed id
  | exchangePayload id f => exact w.exchangePayload_framed id f
  | exchangeGlobal id name => exact w.exchangeGlobal_framed id name
  | exchangeRegister name kind => exact w.exchangeRegister_framed name kind
  | dropNewestScope => exact w.dropScope_framed _
  | removeRegister name => exact w.removeRegister_framed name
  | keep => exact w.keep_framed
  | retrieve n => exact w.retrieve_framed n
  | hold => exact w.hold_framed
  | dropEngineScope => exact w.dropScope_framed _
  | _ => rfl

theorem Change.guards (hf : Change f) (w : World) : (f w).guards = w.guards := by
  have h := congrArg World.guards (hf.framed (g := w.guards) (e := w.exclusion) (l := w.ledger) w)
  exact h

theorem Change.ledger (hf : Change f) (w : World) : (f w).ledger = w.ledger := by
  have h := congrArg World.ledger (hf.framed (g := w.guards) (e := w.exclusion) (l := w.ledger) w)
  exact h

theorem Change.canRead (hf : Change f) (w : World) (place : Place) :
    (f w).canRead place = w.canRead place := by
  have h := congrArg (fun w : World => w.canRead place)
    (hf.framed (g := w.guards) (e := w.exclusion) (l := w.ledger) w)
  exact h

/-! ## Counters -/

section Tally

variable (w : World)

theorem tally_share (s : Slot) : w.heap.tally.Le (w.share s).heap.tally := by
  unfold share
  split
  · exact .refl _
  · split
    · exact Heap.tally_retain _ _
    · exact .refl _

theorem tally_drop : w.heap.tally.Le w.drop.heap.tally := by
  unfold drop
  split
  · exact .refl _
  · exact Heap.tally_releaseSlots _ _

theorem tally_settle (n : Nat) : w.heap.tally.Le (w.settle n).heap.tally := by
  unfold settle
  split
  · exact .refl _
  · exact Heap.tally_releaseSlots _ _

theorem heap_lift (n : Nat) : (w.lift n).heap = w.heap := by
  unfold lift
  split <;> rfl

theorem heap_exchangeGlobal (id : ScopeId) (name : String) :
    (w.exchangeGlobal id name).heap = w.heap := by
  unfold exchangeGlobal
  split <;> rfl

theorem heap_exchangeRegister (name : String) (kind : Kind) :
    (w.exchangeRegister name kind).heap = w.heap := by
  unfold exchangeRegister
  split <;> rfl

theorem heap_keep : w.keep.heap = w.heap := by
  unfold keep
  split <;> rfl

theorem heap_retrieve (n : Nat) : (w.retrieve n).heap = w.heap := by
  unfold retrieve
  split <;> rfl

theorem heap_hold : w.hold.heap = w.heap := by
  unfold hold
  split <;> rfl

theorem tally_replaceBelow (n : Nat) : w.heap.tally.Le (w.replaceBelow n).heap.tally := by
  unfold replaceBelow
  split
  · exact .refl _
  · split
    · exact .refl _
    · exact Heap.tally_releaseSlots _ _

theorem tally_secureUnder (base passed : Nat) (s : Slot) :
    w.heap.tally.Le (w.secureUnder base passed s).heap.tally := by
  unfold secureUnder
  split
  · exact .refl _
  · split
    · rw [heap_lift]
      exact .refl _
    · exact w.tally_share _

theorem tally_secureAll (base passed : Nat) (slots : List Slot) :
    w.heap.tally.Le (w.secureAll base passed slots).heap.tally := by
  induction slots generalizing w passed with
  | nil => exact .refl _
  | cons s rest ih => exact (w.tally_secureUnder base passed s).trans (ih _ _)

theorem tally_discard (base : Nat) (s : Slot) :
    w.heap.tally.Le (w.discard base s).heap.tally := by
  unfold discard
  split
  · exact .refl _
  · split
    · rename_i n _
      have hdrop := (w.lift n).tally_drop
      rwa [heap_lift] at hdrop
    · exact .refl _

theorem tally_discardAll (base : Nat) (slots : List Slot) :
    w.heap.tally.Le (w.discardAll base slots).heap.tally := by
  induction slots generalizing w with
  | nil => exact .refl _
  | cons s rest ih => exact (w.tally_discard base s).trans (ih _)

theorem tally_allocInstance (id : CellId) :
    w.heap.tally.Le (w.allocInstance id).heap.tally := by
  unfold allocInstance
  split
  · exact (Heap.tally_retain _ id).trans (Heap.tally_alloc _ _)
  · exact Heap.tally_alloc _ _

theorem tally_exchangePayload (id : CellId) (f : Payload → Slot → Option (Payload × Slot)) :
    (w.exchangePayload id f).heap.tally = w.heap.tally := by
  unfold exchangePayload
  split
  · split
    · exact Heap.tally_setPayload _ _ _
    · rfl
  · rfl

theorem tally_dropScope (id : ScopeId) : w.heap.tally.Le (w.dropScope id).heap.tally := by
  unfold dropScope
  split
  · exact Heap.tally_releaseSlots _ _
  · exact .refl _

theorem tally_removeRegister (name : String) :
    w.heap.tally.Le (w.removeRegister name).heap.tally := by
  unfold removeRegister
  split
  · exact Heap.tally_releaseSlots _ _
  · exact .refl _

end Tally

/-- No change counts down. -/
theorem Change.tally (hf : Change f) (w : World) : w.heap.tally.Le (f w).heap.tally := by
  have hsame : ∀ w' : World, w'.heap = w.heap → w.heap.tally.Le w'.heap.tally := fun w' h => by
    rw [h]
    exact .refl _
  cases hf with
  | share s => exact w.tally_share s
  | drop => exact w.tally_drop
  | settle n => exact w.tally_settle n
  | settleTo base => exact w.tally_settle _
  | replaceBelow n => exact w.tally_replaceBelow n
  | secure base s => exact w.tally_secureUnder base 0 s
  | secureAll base slots => exact w.tally_secureAll base 0 slots
  | discard base s => exact w.tally_discard base s
  | discardAll base slots => exact w.tally_discardAll base slots
  | allocInstance id => exact w.tally_allocInstance id
  | exchangePayload id f => exact w.tally_exchangePayload id f ▸ .refl _
  | dropNewestScope | dropEngineScope => exact w.tally_dropScope _
  | removeRegister name => exact w.tally_removeRegister name
  | exchangeGlobal id name => exact hsame _ (w.heap_exchangeGlobal id name)
  | exchangeRegister name kind => exact hsame _ (w.heap_exchangeRegister name kind)
  | keep => exact hsame _ w.heap_keep
  | retrieve n => exact hsame _ (w.heap_retrieve n)
  | hold => exact hsame _ w.heap_hold
  | push | forget | addScope | bind | stopRunning => exact .refl _
  | install | allocArray | allocObject | allocFunction | allocClass | allocTask =>
    exact Heap.tally_alloc _ _
  | unwind | letGo | dropRegisters | dropBindings | dropKept => exact Heap.tally_releaseSlots _ _

end Enclave.World
