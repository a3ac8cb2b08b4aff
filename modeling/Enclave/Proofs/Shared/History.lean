import Enclave.Proofs.World.Kept

/-! # Histories of accesses

A host and its scripts take turns in accessing what they share. A history is a sequence of such
accesses, with anything in between that leaves what they share alone. A model answers accesses from a
state of its own; it is right if every history is as the model says.
-/
namespace Enclave

open Act

/-- No access to a payload is in progress. -/
def World.Unlocked (w : World) : Prop :=
  ∀ id, w.canWrite (.payload id) = true

theorem World.Unlocked.sees {w : World} {id : CellId} {p : Payload} (hu : w.Unlocked)
    (hp : w.heap.payload? id = some p) : w.writable? id = some p ∧ w.visible? id = some p := by
  have hw : w.writable? id = some p := by
    rw [World.writable?, if_pos (hu id), hp]
  exact ⟨hw, World.visible?_of_writable hw⟩

/-- An act that only gains something leaves all payloads as they are, and whatever is said of them. -/
theorem Act.Turns.answers {α β : Type} {x : Act α} {a : α} {m : Machine} {Q : α → Gain → Prop}
    {D : World → Prop} (hx : Turns m .none x Q) (ha : ∀ r g, Q r g → r = a) (f : α → β)
    (hd : ∀ w', m.world.Keeps w' → D w') : ∃ m', (f <$> x) m = .done (f a) m' ∧ D m'.world := by
  obtain ⟨r, g, m', hrun, hgains, hq⟩ := hx.run
  obtain rfl := ha r g hq
  exact ⟨m', map_done hrun f, hd _ (World.keeps_of_gains hgains)⟩

/-- Of the payloads of some kinds, those that are left are as they were, and none is new. -/
structure World.Leaves (kinds : Kind → Prop) (w w' : World) : Prop where
  later : w.heap.Later w'.heap
  payload : ∀ id p, kinds p.kind → w'.heap.payload? id = some p → w.heap.payload? id = some p

/-- Accesses to payloads of some kinds, and a model of them. An access may need entries on top of the
part of the stack that is kept, which its act is given the height of. The model answers from its
state and goes on to the next. -/
structure Accesses where
  Op : Type
  Reply : Type
  State : Type
  kinds : Kind → Prop
  act : (base : Nat) → Op → Act Reply
  needs : Op → Nat
  Ready : World → Op → Prop
  Describes : State → World → Prop
  answer : World → State → Op → Reply
  next : World → State → Op → State

namespace Accesses

/-- An access that took place: the world that it met and the reply that it got. -/
structure Entry (A : Accesses) where
  world : World
  op : A.Op
  reply : A.Reply

variable (A : Accesses) (t : Limits)

/-- From one machine to a later one by accesses that are ready, and by asides, which may be anything
that leaves the payloads of the kinds alone and the machine in good order. -/
inductive History : List Slot → Machine → List A.Entry → List Slot → Machine → Prop
  | done (keep : List Slot) (m : Machine) : History keep m [] keep m
  | access {keep keep' : List Slot} {m m₁ m' : Machine} {op : A.Op} {reply : A.Reply}
      {log : List A.Entry} (hover : Over (A.needs op) keep m.world.stack)
      (hready : A.Ready m.world op) (hrun : A.act keep.length op m = .done reply m₁)
      (rest : History keep m₁ log keep' m') :
      History keep m (⟨m.world, op, reply⟩ :: log) keep' m'
  | aside {keep keep₁ keep' : List Slot} {m m₁ m' : Machine} {log : List A.Entry}
      (hgood : m₁.Good t keep₁) (hleaves : World.Leaves A.kinds m.world m₁.world)
      (rest : History keep₁ m₁ log keep' m') : History keep m log keep' m'

/-- The state of the model after the accesses of a history. -/
def after (s : A.State) : List A.Entry → A.State
  | [] => s
  | e :: log => after (A.next e.world s e.op) log

/-- Every reply is the model's answer. -/
def Explains (s : A.State) : List A.Entry → Prop
  | [] => True
  | e :: log => e.reply = A.answer e.world s e.op ∧ Explains (A.next e.world s e.op) log

/-- The accesses keep good order, the model is right about a single one, and asides do not matter to
it. -/
structure Correct : Prop where
  spec : ∀ keep op, Spec t True keep (Over (A.needs op) keep) (A.act keep.length op) fun _ _ => True
  answers : ∀ {keep : List Slot} {m : Machine} {s : A.State} (op : A.Op), m.Good t keep →
    A.Describes s m.world → Over (A.needs op) keep m.world.stack → A.Ready m.world op →
    ∃ m', A.act keep.length op m = .done (A.answer m.world s op) m' ∧
      A.Describes (A.next m.world s op) m'.world
  aside : ∀ {keep keep' : List Slot} {m m' : Machine} {s : A.State}, m.Good t keep →
    m'.Good t keep' → A.Describes s m.world → World.Leaves A.kinds m.world m'.world →
    A.Describes s m'.world

variable {A t} {keep keep' : List Slot} {m m' : Machine} {log : List A.Entry} {s : A.State}

/-- A model that is right about single accesses is right about histories. -/
theorem Correct.history (hA : A.Correct t) (hg : m.Good t keep) (hd : A.Describes s m.world)
    (h : A.History t keep m log keep' m') :
    m'.Good t keep' ∧ A.Explains s log ∧ A.Describes (A.after s log) m'.world := by
  induction h generalizing s with
  | done => exact ⟨hg, trivial, hd⟩
  | @access keep _ m m₁ _ op reply log hover hready hrun _ ih =>
    obtain ⟨m₂, hrun₂, hd₂⟩ := hA.answers op hg hd hover hready
    rw [hrun] at hrun₂
    cases hrun₂
    have hg₁ : m₁.Good t keep := ((hA.spec keep op).after hg hover hrun).1
    obtain ⟨hg', hexplains, hd'⟩ := ih hg₁ hd₂
    exact ⟨hg', ⟨rfl, hexplains⟩, hd'⟩
  | aside hgood hleaves _ ih => exact ih hgood (hA.aside hg hgood hd hleaves)

end Accesses
end Enclave
