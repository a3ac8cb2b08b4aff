import Enclave.Proofs.Heap.Shape
import Enclave.Proofs.World.Change

/-! # Deeds

What acts do to the world they do in circumstances in which it is right: a class gets a function for a
method, an instance is made of a class, a function is made for a closure that is bound. Done there alone
a change is a deed. It lets the heap evolve, never turns to another engine, and only adds closures for
as long as the engine runs.
-/
namespace Enclave

theorem Table.keys_zip_sublist {α : Type} (keys : List String) (values : List α) :
    (Table.keys (keys.zip values)).Sublist keys := by
  induction keys generalizing values with
  | nil => simp [Table.keys]
  | cons key rest ih =>
    cases values with
    | nil => simp [Table.keys]
    | cons v values => exact (ih values).cons_cons key

namespace World

variable {w w' w₁ : World} {f : World → World}

/-! ## Evolution -/

/-- The world comes to another one of the same engine, whose heap has evolved. Until the engine stops its
closures stay at their places, and what a function runs is one of them. -/
structure Evolves (w w' : World) : Prop where
  heap : w.heap.Evolves w'.heap
  config : w'.engine.config = w.engine.config
  scope : w'.engine.scope = w.engine.scope
  bindings : w'.engine.running = true →
    w.engine.running = true ∧ w.engine.bindings.toList <+: w'.engine.bindings.toList
  bounded : w'.engine.running = true → w.heap.Bounded w.engine.bindings.size →
    w'.heap.Bounded w'.engine.bindings.size

theorem Evolves.trans (h₁₂ : w.Evolves w₁) (h₂₃ : w₁.Evolves w') : w.Evolves w' where
  heap := h₁₂.heap.trans h₂₃.heap
  config := h₂₃.config.trans h₁₂.config
  scope := h₂₃.scope.trans h₁₂.scope
  bindings := fun h =>
    have ⟨hrunning, hprefix⟩ := h₂₃.bindings h
    have ⟨hrunning', hprefix'⟩ := h₁₂.bindings hrunning
    ⟨hrunning', hprefix'.trans hprefix⟩
  bounded := fun h hb => h₂₃.bounded h (h₁₂.bounded (h₂₃.bindings h).1 hb)

/-- A heap may age under the same engine. -/
theorem evolves_of_ages (he : w'.engine = w.engine) (hh : w.heap.Ages w'.heap) : w.Evolves w' where
  heap := hh.evolves
  config := congrArg Engine.config he
  scope := congrArg Engine.scope he
  bindings := fun h => ⟨he ▸ h, he ▸ List.prefix_rfl⟩
  bounded := fun _ hb => he ▸ hh.bounded _ hb

/-- What is neither the heap nor the engine may change. -/
theorem evolves_of_same (he : w'.engine = w.engine) (hh : w'.heap = w.heap) : w.Evolves w' :=
  evolves_of_ages he (hh ▸ .refl _)

theorem Evolves.refl (w : World) : w.Evolves w :=
  evolves_of_same rfl rfl

/-! ## The working stack -/

section Steps

variable (w : World)

theorem evolves_release (stack dropped : List Slot) :
    w.Evolves { w with stack := stack, heap := w.heap.releaseSlots dropped } :=
  evolves_of_ages rfl (Heap.ages_releaseSlots _ _)

theorem evolves_share (s : Slot) : w.Evolves (w.share s) := by
  unfold share
  split
  · exact evolves_of_same rfl rfl
  · split
    · exact evolves_of_ages rfl (Heap.ages_retain _ _)
    · exact evolves_of_same rfl rfl

theorem evolves_drop : w.Evolves w.drop := by
  unfold drop
  split
  · exact .refl w
  · exact w.evolves_release _ _

theorem evolves_settle (n : Nat) : w.Evolves (w.settle n) := by
  unfold settle
  split
  · exact .refl w
  · exact w.evolves_release _ _

theorem evolves_lift (n : Nat) : w.Evolves (w.lift n) := by
  unfold lift
  split
  · exact .refl w
  · exact evolves_of_same rfl rfl

theorem evolves_replaceBelow (n : Nat) : w.Evolves (w.replaceBelow n) := by
  unfold replaceBelow
  split
  · exact .refl w
  · split
    · exact .refl w
    · exact w.evolves_release _ _

theorem evolves_secureUnder (base passed : Nat) (s : Slot) :
    w.Evolves (w.secureUnder base passed s) := by
  unfold secureUnder
  split
  · exact evolves_of_same rfl rfl
  · split
    · exact w.evolves_lift _
    · exact w.evolves_share _

theorem evolves_secureAll (base passed : Nat) (slots : List Slot) :
    w.Evolves (w.secureAll base passed slots) := by
  induction slots generalizing w passed with
  | nil => exact .refl w
  | cons s rest ih => exact (w.evolves_secureUnder base passed s).trans (ih _ _)

theorem evolves_discard (base : Nat) (s : Slot) : w.Evolves (w.discard base s) := by
  unfold discard
  split
  · exact .refl w
  · split
    · exact (w.evolves_lift _).trans (evolves_drop _)
    · exact .refl w

theorem evolves_discardAll (base : Nat) (slots : List Slot) : w.Evolves (w.discardAll base slots) := by
  induction slots generalizing w with
  | nil => exact .refl w
  | cons s rest ih => exact (w.evolves_discard base s).trans (ih _)

/-! ## Allocation -/

theorem evolves_install {stack : List Slot} {p : Payload} (hp : p.Suits w.heap)
    (hf : ∀ i, p ≠ .function (.closure (some i))) :
    w.Evolves { w with heap := w.heap.alloc p, stack := stack } :=
  evolves_of_ages rfl (Heap.ages_alloc hp hf)

theorem evolves_allocObject {keys : List String} (hkeys : keys.Nodup) :
    w.Evolves (w.allocObject keys) := by
  exact w.evolves_install ⟨hkeys.sublist (Table.keys_zip_sublist keys _), nofun⟩ nofun

/-- The cell is a class, if it is still there. -/
def IsClass (id : CellId) (w : World) : Prop :=
  w.heap.kind? id = some .classDesc ∨ w.heap.kind? id = none

instance (id : CellId) : DecidablePred (IsClass id) := fun w => by
  unfold IsClass
  infer_instance

theorem isClass_of_made {w : World} {id : CellId} (h : w.heap.Made id .classDesc) : IsClass id w := by
  cases hk : w.heap.kind? id with
  | none => exact .inr hk
  | some k => exact .inl (by rw [hk, h.kind k hk])

theorem evolves_allocInstance {id : CellId} (hid : IsClass id w) :
    w.Evolves (w.allocInstance id) := by
  unfold allocInstance
  split
  · rename_i hlive
    have hmade : w.heap.Made id .classDesc := by
      rcases hid with hkind | hkind
      · exact Heap.made_of_kind? hkind
      · rw [Heap.isLive, Option.map_eq_none_iff.mp hkind] at hlive
        cases hlive
    have hlinked : ∀ c, some id = some c → (w.heap.retain id).Made c .classDesc := fun c hc => by
      cases hc
      exact hmade.later (Heap.later_retain _ _)
    exact evolves_of_ages rfl ((Heap.ages_retain _ id).trans
      (Heap.ages_alloc ⟨List.nodup_nil, hlinked⟩ fun i hi => by cases hi))
  · exact w.evolves_install ⟨List.nodup_nil, fun c hc => by cases hc⟩ fun i hi => by cases hi

/-- What the function runs is there: a closure at its place among the bound ones, or a function of its
own. -/
def Provides (f : NativeFunction) (w : World) : Prop :=
  ∀ i, f = .closure (some i) → i < w.engine.bindings.size

instance (f : NativeFunction) : DecidablePred (Provides f) := fun w =>
  match f with
  | .closure (some i) => decidable_of_iff (i < w.engine.bindings.size)
    ⟨fun h _ hi => by cases hi; exact h, fun h => h i rfl⟩
  | .closure none | .foreign _ => isTrue nofun

theorem evolves_allocFunction {f : NativeFunction} (hf : Provides f w) :
    w.Evolves (w.allocFunction f) where
  heap := Heap.evolves_alloc trivial
  config := rfl
  scope := rfl
  bindings := fun h => ⟨h, List.prefix_rfl⟩
  bounded := fun _ hb => hb.alloc fun i hi => hf i (Payload.function.inj hi)

/-! ## Exchanges -/

theorem evolves_exchangePayload (id : CellId) {f : Payload → Slot → Option (Payload × Slot)}
    (hf : ∀ p q old, f p w.top = some (q, old) →
      (∀ g, p ≠ .function g) ∧ (∀ g, q ≠ .function g) ∧ p.Relinks q ∧
        (p.Suits w.heap → q.Suits w.heap)) :
    w.Evolves (w.exchangePayload id f) := by
  unfold exchangePayload
  split
  · rename_i s rest p hs hp
    split
    · rename_i q old hq
      have htop : w.top = s := by simp [top, hs]
      obtain ⟨hfun, hfun', hlinks, hsuits⟩ := hf p q old (htop ▸ hq)
      exact evolves_of_ages rfl
        (Heap.ages_setPayload hp hfun hfun' hlinks fun h => hsuits (h id p hp))
    · exact .refl w
  · exact .refl w

/-- The newest entry is a function. -/
def OffersFunction (w : World) : Prop :=
  w.top.cell?.bind w.heap.kind? = some .function

instance : DecidablePred OffersFunction := fun w => by
  unfold OffersFunction
  infer_instance

theorem evolves_putMethod (id : CellId) (key : String) (htop : w.OffersFunction) :
    w.Evolves (w.exchangePayload id (Payload.putMethod key)) := by
  obtain ⟨f, hf, hkind⟩ := Option.bind_eq_some_iff.mp htop
  have hcell : w.top = .cell f := by
    cases hs : w.top <;> simp_all [Slot.cell?]
  refine w.evolves_exchangePayload id fun p q old hq => ?_
  rw [hcell] at hq
  have hsuits := fun hp : p.Suits w.heap =>
    Payload.suits_putMethod (Heap.made_of_kind? hkind) hp hq
  cases p with
  | classDesc name methods =>
    cases hq
    exact ⟨fun g hg => (by cases hg), fun g hg => (by cases hg), fun _ _ hp => (by cases hp), hsuits⟩
  | array | object | function | task => cases hq

theorem evolves_exchangeGlobal (id : ScopeId) (name : String) :
    w.Evolves (w.exchangeGlobal id name) := by
  unfold exchangeGlobal
  split
  · exact evolves_of_same rfl rfl
  · exact .refl w

theorem evolves_exchangeRegister (name : String) (kind : Kind) :
    w.Evolves (w.exchangeRegister name kind) := by
  unfold exchangeRegister
  split
  · exact evolves_of_same rfl rfl
  · exact .refl w

/-! ## Scopes, registers and closures -/

theorem evolves_dropScope (id : ScopeId) : w.Evolves (w.dropScope id) := by
  unfold dropScope
  split
  · exact evolves_of_ages rfl (Heap.ages_releaseSlots _ _)
  · exact .refl w

theorem evolves_removeRegister (name : String) : w.Evolves (w.removeRegister name) := by
  unfold removeRegister
  split
  · exact evolves_of_ages rfl (Heap.ages_releaseSlots _ _)
  · exact .refl w

theorem evolves_keep : w.Evolves w.keep := by
  unfold keep
  split
  · exact evolves_of_same rfl rfl
  · exact .refl w

theorem evolves_retrieve (n : Nat) : w.Evolves (w.retrieve n) := by
  unfold retrieve
  split <;> exact evolves_of_same rfl rfl

theorem evolves_hold : w.Evolves w.hold := by
  unfold hold
  split
  · exact evolves_of_same rfl rfl
  · exact .refl w

theorem evolves_bind (label : Option String) (kinds : List Kind) (body : HostFunction) :
    w.Evolves (w.bind label kinds body) where
  heap := .refl _
  config := rfl
  scope := rfl
  bindings := fun h => ⟨h, by simp [bind]⟩
  bounded := fun _ hb => hb.mono (by simp [bind])

theorem evolves_stopRunning :
    w.Evolves { w with engine := { w.engine with running := false } } where
  heap := .refl _
  config := rfl
  scope := rfl
  bindings := nofun
  bounded := nofun

/-- The closures go when the engine runs no more. -/
theorem evolves_dropBindings (hw : w.engine.running = false) : w.Evolves w.dropBindings where
  heap := (Heap.ages_releaseSlots _ _).evolves
  config := rfl
  scope := rfl
  bindings := fun h => absurd (hw.symm.trans h) nofun
  bounded := fun h => absurd (hw.symm.trans h) nofun

end Steps

/-! ## Deeds -/

/-- A change that is made only where the condition holds. -/
def only (P : World → Prop) [DecidablePred P] (f : World → World) (w : World) : World :=
  if P w then f w else w

theorem only_of {P : World → Prop} [DecidablePred P] (h : P w) (f : World → World) :
    only P f w = f w :=
  if_pos h

/-- A change of one of the kinds, or none, that lets every world evolve. -/
structure Deed (f : World → World) : Prop where
  change : ∀ w : World, f w = w ∨ ∃ g, Change g ∧ f w = g w
  framed : ∀ (w : World) (g : List Guard) (e : Bool) (l : Ledger),
    f (w.framed g e l) = (f w).framed g e l
  evolves : ∀ w : World, w.Evolves (f w)

namespace Deed

theorem guards (hf : Deed f) (w : World) : (f w).guards = w.guards := by
  have h := congrArg World.guards (hf.framed w w.guards w.exclusion w.ledger)
  exact h

theorem ledger (hf : Deed f) (w : World) : (f w).ledger = w.ledger := by
  have h := congrArg World.ledger (hf.framed w w.guards w.exclusion w.ledger)
  exact h

theorem of_change (hf : Change f) (he : ∀ w : World, w.Evolves (f w)) : Deed f :=
  ⟨fun _ => .inr ⟨f, hf, rfl⟩, fun w _ _ _ => hf.framed w, he⟩

/-- A change that is made only where it is right. -/
theorem of_only {P : World → Prop} [DecidablePred P] (hf : Change f)
    (hP : ∀ (w : World) (g : List Guard) (e : Bool) (l : Ledger), P (w.framed g e l) ↔ P w)
    (he : ∀ w : World, P w → w.Evolves (f w)) : Deed (only P f) where
  change := fun w => by
    unfold only
    split
    · exact .inr ⟨f, hf, rfl⟩
    · exact .inl rfl
  framed := fun w g e l => by
    unfold only
    simp only [hP]
    split
    · exact hf.framed w
    · rfl
  evolves := fun w => by
    unfold only
    split
    · exact he w ‹_›
    · exact .refl w

theorem push (v : Scalar) : Deed (·.push v) :=
  .of_change (.push v) fun _ => evolves_of_same rfl rfl

theorem share (s : Slot) : Deed (·.share s) :=
  .of_change (.share s) (evolves_share · s)

theorem drop : Deed World.drop :=
  .of_change .drop evolves_drop

theorem settle (n : Nat) : Deed (·.settle n) :=
  .of_change (.settle n) (evolves_settle · n)

theorem settleTo (base : Nat) : Deed fun w => w.settle (w.stack.length - 1 - base) :=
  .of_change (.settleTo base) fun w => w.evolves_settle _

theorem unwind (base : Nat) : Deed (·.unwind base) :=
  .of_change (.unwind base) fun w => w.evolves_release _ _

theorem replaceBelow (n : Nat) : Deed (·.replaceBelow n) :=
  .of_change (.replaceBelow n) (evolves_replaceBelow · n)

theorem secure (base : Nat) (s : Slot) : Deed (·.secure base s) :=
  .of_change (.secure base s) fun w => w.evolves_secureUnder base 0 s

theorem secureAll (base : Nat) (slots : List Slot) : Deed (·.secureAll base 0 slots) :=
  .of_change (.secureAll base slots) fun w => w.evolves_secureAll base 0 slots

theorem discard (base : Nat) (s : Slot) : Deed (·.discard base s) :=
  .of_change (.discard base s) fun w => w.evolves_discard base s

theorem discardAll (base : Nat) (slots : List Slot) : Deed (·.discardAll base slots) :=
  .of_change (.discardAll base slots) fun w => w.evolves_discardAll base slots

theorem forget : Deed World.forget :=
  .of_change .forget fun _ => evolves_of_same rfl rfl

theorem installArray : Deed (·.install (.array #[])) :=
  .of_change (.install _) fun w => w.evolves_install trivial nofun

theorem installObject : Deed (·.install (.object [] none)) :=
  .of_change (.install _) fun w => w.evolves_install ⟨List.nodup_nil, nofun⟩ nofun

theorem allocArray (n : Nat) : Deed (·.allocArray n) :=
  .of_change (.allocArray n) fun w => w.evolves_install trivial nofun

theorem allocObject (keys : List String) :
    Deed (only (fun _ => keys.Nodup) (·.allocObject keys)) :=
  of_only (.allocObject keys) (fun _ _ _ _ => Iff.rfl) fun w hkeys => w.evolves_allocObject hkeys

theorem allocInstance (id : CellId) : Deed (only (IsClass id) (·.allocInstance id)) :=
  of_only (.allocInstance id) (fun _ _ _ _ => Iff.rfl) fun w hid => w.evolves_allocInstance hid

theorem allocFunction (f : NativeFunction) : Deed (only (Provides f) (·.allocFunction f)) :=
  of_only (.allocFunction f) (fun _ _ _ _ => Iff.rfl) fun w hf => w.evolves_allocFunction hf

theorem allocClass (name : String) : Deed (·.allocClass name) :=
  .of_change (.allocClass name) fun w => w.evolves_install ⟨List.nodup_nil, nofun⟩ nofun

theorem allocTask : Deed World.allocTask :=
  .of_change .allocTask fun w => w.evolves_install trivial nofun

theorem exchangePayload (id : CellId) {f : Payload → Slot → Option (Payload × Slot)}
    (hf : Payload.Reshapes f) : Deed (·.exchangePayload id f) :=
  .of_change (.exchangePayload id f) fun w => w.evolves_exchangePayload id fun p q old hq =>
    have ⟨hp, hq', hlinks, hsuits⟩ := hf p w.top q old hq
    ⟨hp, hq', hlinks, hsuits w.heap⟩

theorem putMethod (id : CellId) (key : String) :
    Deed (only OffersFunction (·.exchangePayload id (Payload.putMethod key))) :=
  of_only (.exchangePayload id _) (fun _ _ _ _ => Iff.rfl) fun w h => w.evolves_putMethod id key h

theorem exchangeGlobal (id : ScopeId) (name : String) : Deed (·.exchangeGlobal id name) :=
  .of_change (.exchangeGlobal id name) fun w => w.evolves_exchangeGlobal id name

theorem exchangeRegister (name : String) (kind : Kind) : Deed (·.exchangeRegister name kind) :=
  .of_change (.exchangeRegister name kind) fun w => w.evolves_exchangeRegister name kind

theorem addScope : Deed World.addScope :=
  .of_change .addScope fun _ => evolves_of_same rfl rfl

theorem dropNewestScope : Deed World.dropNewestScope :=
  .of_change .dropNewestScope fun w => w.evolves_dropScope _

theorem removeRegister (name : String) : Deed (·.removeRegister name) :=
  .of_change (.removeRegister name) (evolves_removeRegister · name)

theorem keep : Deed World.keep :=
  .of_change .keep evolves_keep

theorem retrieve (n : Nat) : Deed (·.retrieve n) :=
  .of_change (.retrieve n) (evolves_retrieve · n)

theorem hold : Deed World.hold :=
  .of_change .hold evolves_hold

theorem letGo : Deed World.letGo :=
  .of_change .letGo fun _ => evolves_of_ages rfl (Heap.ages_releaseSlots _ _)

theorem bind (label : Option String) (kinds : List Kind) (body : HostFunction) :
    Deed (·.bind label kinds body) :=
  .of_change (.bind label kinds body) fun w => w.evolves_bind label kinds body

theorem dropRegisters : Deed World.dropRegisters :=
  .of_change .dropRegisters fun _ => evolves_of_ages rfl (Heap.ages_releaseSlots _ _)

theorem stopRunning : Deed fun w => { w with engine := { w.engine with running := false } } :=
  .of_change .stopRunning evolves_stopRunning

theorem dropEngineScope : Deed fun w => w.dropScope w.engine.scope :=
  .of_change .dropEngineScope fun w => w.evolves_dropScope _

theorem dropBindings : Deed (only (·.engine.running = false) World.dropBindings) :=
  of_only .dropBindings (fun _ _ _ _ => Iff.rfl) evolves_dropBindings

theorem dropKept : Deed World.dropKept :=
  .of_change .dropKept fun _ => evolves_of_ages rfl (Heap.ages_releaseSlots _ _)

end Deed

end World
end Enclave
