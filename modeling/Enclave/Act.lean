import Enclave.Boundary.Record
import Enclave.Script.Fault
import Enclave.World

/-!
# Acts

An act is a step of the runtime or of the host on the world. It ends with a result, or with a
script fault, or it stops without an answer: because its budget ran out, or because it met an
access in progress that it cannot wait for. Along the way the machine notes the world at each
moment at which host code is in control: when it takes over, when one of its requests has been
answered, when it hands back, and between two steps of the host.
-/
namespace Enclave

inductive Event where
  /-- A native function takes over. The callee is missing if no function cell is being called. -/
  | entered (callee : Option CellId) (function : NativeFunction) (argc : Int)
      (argv : Option (List Record)) (receiver : Option Record)
  | called (label : Option String) (args : List Value) (receiver : Value)
  | resumed
  | returned (record : Record)
  | stepped
  | closing

/-- An event with the world as it was then. -/
structure Moment where
  event : Event
  world : World

/-- The world now, and the moments so far, newest first. -/
structure Machine where
  world : World
  moments : List Moment

inductive Stop where
  | exhausted
  | conflict
  deriving DecidableEq, Repr

/-- Where an act stopped. -/
structure Halt where
  why : Stop
  machine : Machine

inductive Outcome (α : Type) where
  | done (a : α) (m : Machine)
  | raised (fault : Fault) (m : Machine)
  | stopped (halt : Halt)

def Act (α : Type) := Machine → Outcome α

namespace Act

variable {α β : Type}

@[inline]
protected def pure (a : α) : Act α :=
  fun m => .done a m

@[inline]
protected def bind (x : Act α) (f : α → Act β) : Act β :=
  fun m =>
    match x m with
    | .done a m' => f a m'
    | .raised e m' => .raised e m'
    | .stopped halt => .stopped halt

instance : Monad Act where
  pure := Act.pure
  bind := Act.bind

def raise (fault : Fault) : Act α :=
  fun m => .raised fault m

def stop (why : Stop) : Act α :=
  fun m => .stopped ⟨why, m⟩

/-- A fault becomes a result. -/
def attempt (x : Act α) : Act (Except Fault α) :=
  fun m =>
    match x m with
    | .done a m' => .done (.ok a) m'
    | .raised e m' => .done (.error e) m'
    | .stopped halt => .stopped halt

def world : Act World :=
  fun m => .done m.world m

/-- A change of the world. -/
@[inline]
def change (f : World → World) : Act Unit :=
  fun m => .done () { m with world := f m.world }

/-- Notes the present moment. -/
def note (event : Event) : Act Unit :=
  fun m => .done () { m with moments := ⟨event, m.world⟩ :: m.moments }

/-- The guard stands while `x` runs, and falls however `x` ends. -/
def guarded (g : Guard) (x : Act α) : Act α :=
  fun m =>
    match x { m with world := m.world.guard g } with
    | .done a m' => .done a { m' with world := m'.world.unguard g }
    | .raised e m' => .raised e { m' with world := m'.world.unguard g }
    | .stopped halt => .stopped halt

/-- Access under a guard, or `refused` when another guard is in the way. -/
def accessing (g : Guard) (x : Act α) (refused : Act α) : Act α := do
  let w ← world
  if w.allows g then guarded g x else refused

/-- Access that nothing else is ever expected to be in the way of. -/
def surely (g : Guard) (x : Act α) : Act α :=
  accessing g x (stop .conflict)

def push (v : Scalar) : Act Unit :=
  change (·.push v)

def share (s : Slot) : Act Unit :=
  change (·.share s)

def drop : Act Unit :=
  change World.drop

def settle (n : Nat) : Act Unit :=
  change (·.settle n)

/-- The height of the working stack. -/
def height : Act Nat := do
  let w ← world
  pure w.stack.length

/-- Drops everything above a height. -/
def unwind (base : Nat) : Act Unit :=
  change (·.unwind base)

/-- Drops everything between a height and the newest entry. -/
def settleTo (base : Nat) : Act Unit :=
  change fun w => w.settle (w.stack.length - 1 - base)

/-- Runs `body` while `test` holds, at most `patience` times. -/
def repeatWhile (test : Act Bool) (body : Act Unit) : Nat → Act Unit
  | 0 => stop .exhausted
  | patience + 1 => fun m =>
    match test m with
    | .done true m' =>
      match body m' with
      | .done () m'' => repeatWhile test body patience m''
      | .raised e m'' => .raised e m''
      | .stopped halt => .stopped halt
    | .done false m' => .done () m'
    | .raised e m' => .raised e m'
    | .stopped halt => .stopped halt

end Act
end Enclave
