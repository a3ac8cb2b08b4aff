import Enclave.Proofs.Act.Spec
import Enclave.Proofs.World.Unlocked

/-! # How acts are put together

Acts are tidy when they are put together from a few basic ones in ways that keep account of two things:
which text blocks are to be given back, and which accesses are in progress. What holds of all tidy acts
follows by induction on how they are put together.
-/
namespace Enclave

def Moment.unlocked (mo : Moment) : Moment :=
  { mo with world := mo.world.unlocked }

/-- The function cell by way of which a call begins. -/
def Event.callee? : Event → Option CellId
  | .entered callee _ _ _ _ => callee
  | _ => none

/-- The event with which a call by way of a function cell begins that is lent slots. -/
def World.opening (w : World) (callee : CellId) (function : NativeFunction) (args : List Slot)
    (receiver : Option Slot) : Event :=
  .entered (some callee) function args.length (some (args.map w.lend)) (receiver.map w.lend)

namespace Act

open World (Compatible Deed)

/-- What an account of an act extends to: whether all text is `accounted` for, so that no block can be
lost, and whether the act may look at moments, because all of them are `own` moments of its run. -/
structure Terms where
  accounted : Prop
  own : Prop

/-- The terms of an account, and whether it is `faithful`: then what is called by way of a function cell
is what the cell holds, and with records that are lent for the call in the world in which it begins. -/
structure Rules extends Terms where
  faithful : Prop

instance : Coe Terms Rules :=
  ⟨fun terms => ⟨terms, False⟩⟩

open Classical in
/-- An act by way of a function cell, where the cell holds the function. -/
noncomputable def through {α : Type} (callee : CellId) (function : NativeFunction)
    (x : World → Act α) : Act α :=
  world >>= fun w =>
    if w.heap.payload? callee = some (.function function) then x w else stop .exhausted

section Through

variable {α : Type} {callee : CellId} {function : NativeFunction} {x : World → Act α} {m : Machine}

theorem through_held (h : m.world.heap.payload? callee = some (.function function)) :
    through callee function x m = x m.world m :=
  congrFun (if_pos h) m

theorem through_missing (h : m.world.heap.payload? callee ≠ some (.function function)) :
    through callee function x m = .stopped ⟨.exhausted, m⟩ :=
  congrFun (if_neg h) m

end Through

/-- The forms of tidy acts. The accesses `held`, and no others, are in progress when the act starts, and
when it ends. It starts with the text blocks `due`, newest first, and a result leaves those that it
`owes`; a fault leaves none. Whatever an act does to the world is a deed. Moments are noted only while no
access is in progress, and what an act sees of the world does not depend on exclusion. -/
inductive Tidy (rules : Rules) :
    {α : Type} → List Guard → List Nat → Act α → (α → List Nat) → Prop
  | pure {α : Type} {held : List Guard} {due : List Nat} {owes : α → List Nat} (a : α)
      (h : owes a = due) : Tidy rules held due (pure a) owes
  | raise {α : Type} {held : List Guard} {owes : α → List Nat} (fault : Fault) :
      Tidy rules held [] (raise fault) owes
  | exhausted {α : Type} {held : List Guard} {due : List Nat} {owes : α → List Nat} :
      Tidy rules held due (stop .exhausted) owes
  | bind {α β : Type} {held : List Guard} {due : List Nat} {x : Act α} {mid : α → List Nat}
      {f : α → Act β} {owes : β → List Nat} (hx : Tidy rules held due x mid)
      (hf : ∀ a, Tidy rules held (mid a) (f a) owes) : Tidy rules held due (x >>= f) owes
  | look {β : Type} {held : List Guard} {due : List Nat} {f : World → Act β} {owes : β → List Nat}
      (hf : ∀ w, Tidy rules held due (f w) owes)
      (hu : ∀ w : World, w.guards = held → f w.unlocked = f w) :
      Tidy rules held due (world >>= f) owes
  | change {held : List Guard} {due : List Nat} {f : World → World} (hf : Deed f) :
      Tidy rules held due (change f) fun _ => due
  | note {due : List Nat} (event : Event) (h : rules.faithful → event.callee? = none) :
      Tidy rules [] due (note event) fun _ => due
  | enter {β : Type} {due : List Nat} {f : World → Act β} {owes : β → List Nat}
      (callee : CellId) (function : NativeFunction) (args : List Slot)
      (receiver : Option Slot) (hf : ∀ w, Tidy rules [] due (f w) owes)
      (hu : ∀ w : World, w.guards = [] → f w.unlocked = f w) :
      Tidy rules [] due (through callee function fun w =>
        Act.note (w.opening callee function args receiver) >>= fun _ => f w) owes
  | accessing {α : Type} {held : List Guard} {due : List Nat} {x refused : Act α}
      {owes : α → List Nat} {g : Guard} (hg : Compatible g held)
      (hx : Tidy rules (g :: held) due x owes) (hr : Tidy rules held due refused owes) :
      Tidy rules held due (accessing g x refused) owes
  | surely {α : Type} {held : List Guard} {due : List Nat} {x : Act α} {owes : α → List Nat}
      {g : Guard} (hg : Compatible g held) (hx : Tidy rules (g :: held) due x owes) :
      Tidy rules held due (surely g x) owes
  | attempt {α : Type} {held : List Guard} {due : List Nat} {x : Act α} {owes : α → List Nat}
      {after : Except Fault α → List Nat} (hx : Tidy rules held due x owes)
      (hok : ∀ a, after (.ok a) = owes a) (herror : ∀ fault, after (.error fault) = []) :
      Tidy rules held due (attempt x) after
  | alloc {β : Type} {held : List Guard} {due : List Nat} {f : Nat → Act β} {owes : β → List Nat}
      (hf : ∀ block, Tidy rules held (block :: due) (f block) owes) :
      Tidy rules held due
        (world >>= fun w => Act.change World.allocText >>= fun _ => f w.ledger.next) owes
  | free {held : List Guard} {due : List Nat} (block : Nat) :
      Tidy rules held (block :: due) (Act.change (·.freeText block)) fun _ => due
  | consult {α : Type} {held : List Guard} {due : List Nat} (ho : rules.own) (f : List Moment → α)
      (hu : ∀ moments : List Moment, (∀ mo ∈ moments, mo.world.guards = []) →
        f (moments.map Moment.unlocked) = f moments) :
      Tidy rules held due (fun m => .done (f m.moments) m) fun _ => due
  | lose {α : Type} {held : List Guard} {due : List Nat} {owes : α → List Nat}
      (h : ¬ rules.accounted) (a : α) : Tidy rules held due (Pure.pure a) owes

/-- An act that neither starts nor ends with text blocks to be given back. -/
abbrev Neat {α : Type} (rules : Rules) (held : List Guard) (x : Act α) : Prop :=
  Tidy rules held [] x fun _ => []

variable {rules : Rules} {α β : Type} {held : List Guard} {due : List Nat} {owes : α → List Nat}

/-! ## Derived forms -/

theorem Neat.bind {x : Act α} {f : α → Act β} {owes : β → List Nat}
    (hx : Neat rules held x) (hf : ∀ a, Tidy rules held [] (f a) owes) :
    Tidy rules held [] (x >>= f) owes :=
  Tidy.bind hx hf

theorem Tidy.map {x : Act α} {f : α → β} {owes' : β → List Nat}
    (hx : Tidy rules held due x owes) (hf : ∀ a, owes' (f a) = owes a) :
    Tidy rules held due (f <$> x) owes' :=
  hx.bind fun a => .pure (f a) (hf a)

theorem tidy_top {f : Slot → Act β} {owes : β → List Nat}
    (hf : ∀ s, Tidy rules held due (f s) owes) : Tidy rules held due (top >>= f) owes :=
  Tidy.look (fun w => hf w.top) fun _ _ => rfl

theorem tidy_peek {f : Slot → Act β} {owes : β → List Nat} (n : Nat)
    (hf : ∀ s, Tidy rules held due (f s) owes) : Tidy rules held due (peek n >>= f) owes :=
  Tidy.look (fun w => hf (w.stack.getD n .null)) fun _ _ => rfl

theorem tidy_newest {f : List Slot → Act β} {owes : β → List Nat} (n : Nat)
    (hf : ∀ slots, Tidy rules held due (f slots) owes) :
    Tidy rules held due (newest n >>= f) owes :=
  Tidy.look (fun w => hf (w.newest n)) fun _ _ => rfl

theorem tidy_height {f : Nat → Act β} {owes : β → List Nat}
    (hf : ∀ n, Tidy rules held due (f n) owes) :
    Tidy rules held due (height >>= f) owes :=
  Tidy.look (fun w => hf w.stack.length) fun _ _ => rfl

theorem tidy_push (v : Scalar) : Tidy rules held due (push v) fun _ => due :=
  .change (.push v)

theorem tidy_share (s : Slot) : Tidy rules held due (share s) fun _ => due :=
  .change (.share s)

theorem tidy_drop : Tidy rules held due drop fun _ => due :=
  .change .drop

theorem tidy_settle (n : Nat) : Tidy rules held due (settle n) fun _ => due :=
  .change (.settle n)

theorem tidy_settleTo (base : Nat) : Tidy rules held due (settleTo base) fun _ => due :=
  .change (.settleTo base)

theorem tidy_unwind (base : Nat) : Tidy rules held due (unwind base) fun _ => due :=
  .change (.unwind base)

/-- A fault leaves no text block behind. -/
theorem Tidy.recover {x : Act α} {after : Except Fault α → List Nat}
    (hx : Tidy rules held due x owes) (hok : ∀ a, after (.ok a) = owes a)
    (herror : ∀ fault, after (.error fault) = []) :
    Tidy rules held due (recover x) after := by
  refine tidy_height fun base => (hx.attempt hok herror).bind fun outcome => ?_
  cases outcome with
  | ok a => exact .pure _ rfl
  | error fault =>
    rw [herror]
    exact (tidy_unwind base).bind fun _ => .pure _ (herror fault)

theorem Neat.recover {x : Act α} (hx : Neat rules held x) :
    Neat rules held (recover x) :=
  Tidy.recover hx (fun _ => rfl) fun _ => rfl

theorem tidy_repeatWhile {test : Act Bool} {body : Act Unit} (ht : Neat rules held test)
    (hb : Neat rules held body) (patience : Nat) :
    Neat rules held (repeatWhile test body patience) := by
  induction patience with
  | zero => exact .exhausted
  | succ patience ih =>
    rw [repeatWhile_succ]
    refine ht.bind fun go => ?_
    cases go with
    | false => exact .pure () rfl
    | true => exact hb.bind fun _ => ih

end Act
end Enclave
