import Enclave.Boundary.Ledger
import Enclave.Heap.Store
import Enclave.Host.Code
import Enclave.Host.Config

/-!
# The world

Everything that can own a reference, in one place: the heap's payloads, the global scopes, the
engine's closures, the host's registers, what the host keeps and holds beside them, and the working
stack. The stack holds what evaluation and host calls in progress have in hand, newest first. Every
operation below moves references between owners, or takes or drops one together with its count.
Beside the owners stand the references that were lost: nobody can give them back any more. Accesses in
progress keep others out, unless the world is one without exclusion.
-/
namespace Enclave

abbrev ScopeId := Nat

/-- Something whose access can be guarded. -/
inductive Place where
  | payload (id : CellId)
  | scope (id : ScopeId)
  | bindings
  deriving DecidableEq, Repr

/-- An access in progress. -/
structure Guard where
  place : Place
  exclusive : Bool
  deriving DecidableEq, Repr

/-- A closure that scripts can reach, with the values it captured. -/
structure Binding where
  label : Option String
  captured : List Value
  body : HostFunction

/-- The slots that a closure captured. -/
def Binding.slots (b : Binding) : List Slot :=
  b.captured.map Value.slot

structure Engine where
  config : Config
  scope : ScopeId
  bindings : Array Binding
  running : Bool

structure World where
  heap : Heap
  ledger : Ledger
  scopes : Array (Option (Table Slot))
  engine : Engine
  registers : Table Value
  kept : List Slot
  held : List Slot
  stack : List Slot
  lost : List Slot
  guards : List Guard
  exclusion : Bool

namespace Value

/-- A host value that takes over what a slot owns; the kind only matters for a cell. -/
def ofSlot (kind : Kind) : Slot → Value
  | .scalar v => .scalar v
  | .cell id => .handle kind id

end Value

namespace Heap

def releaseSlots (h : Heap) (slots : List Slot) : Heap :=
  h.releaseAll (slots.filterMap Slot.cell?)

end Heap

namespace World

/-! ## Guards -/

/-- Shared access meets no exclusive guard. -/
def canRead (w : World) (place : Place) : Bool :=
  !w.exclusion || w.guards.all fun g => g.place != place || !g.exclusive

/-- Exclusive access meets no guard at all. -/
def canWrite (w : World) (place : Place) : Bool :=
  !w.exclusion || w.guards.all fun g => g.place != place

def allows (w : World) (g : Guard) : Bool :=
  if g.exclusive then w.canWrite g.place else w.canRead g.place

def guard (w : World) (g : Guard) : World :=
  { w with guards := g :: w.guards }

def unguard (w : World) (g : Guard) : World :=
  { w with guards := w.guards.erase g }

/-- The payload of a cell, unless an exclusive guard hides it. -/
def visible? (w : World) (id : CellId) : Option Payload :=
  if w.canRead (.payload id) then w.heap.payload? id else none

/-! ## The working stack -/

def top (w : World) : Slot :=
  w.stack.headD .null

def push (w : World) (v : Scalar) : World :=
  { w with stack := .scalar v :: w.stack }

/-- One more reference to what a slot names; a number that names no live cell gives null. -/
def share (w : World) (s : Slot) : World :=
  match s with
  | .scalar v => w.push v
  | .cell id =>
    if w.heap.isLive id then
      { w with heap := w.heap.retain id, stack := .cell id :: w.stack }
    else w.push .null

/-- Drops the newest entry. -/
def drop (w : World) : World :=
  match w.stack with
  | [] => w
  | s :: rest => { w with stack := rest, heap := w.heap.releaseSlots [s] }

/-- Drops the newest `n` entries. -/
def dropMany (w : World) (n : Nat) : World :=
  { w with stack := w.stack.drop n, heap := w.heap.releaseSlots (w.stack.take n) }

/-- Keeps the newest entry and drops the `n` beneath it. -/
def settle (w : World) (n : Nat) : World :=
  match w.stack with
  | [] => w
  | s :: rest =>
    { w with stack := s :: rest.drop n, heap := w.heap.releaseSlots (rest.take n) }

/-- Drops everything above a height. -/
def unwind (w : World) (height : Nat) : World :=
  w.dropMany (w.stack.length - height)

/-- Moves the entry under `n` others to the top. -/
def lift (w : World) (n : Nat) : World :=
  match w.stack.drop n with
  | [] => w
  | s :: rest => { w with stack := s :: (w.stack.take n ++ rest) }

/-- The newest entry takes the place of the one under it and `n` others, which is dropped. -/
def replaceBelow (w : World) (n : Nat) : World :=
  match w.stack with
  | [] => w
  | s :: rest =>
    match rest.drop n with
    | [] => w
    | old :: deeper =>
      { w with stack := rest.take n ++ s :: deeper, heap := w.heap.releaseSlots [old] }

/-- Gives up the newest entry without dropping its reference. -/
def forget (w : World) : World :=
  { w with stack := w.stack.drop 1, lost := w.stack.take 1 ++ w.lost }

/-- The entries above the height `base`, less the newest `passed` ones. -/
def above (w : World) (base passed : Nat) : List Slot :=
  (w.stack.take (w.stack.length - base)).drop passed

/-- Brings a reference to what `s` names to the top: one that stands above the height `base` and
under the newest `passed` entries already, or else a new one. -/
def secureUnder (w : World) (base passed : Nat) (s : Slot) : World :=
  match s with
  | .scalar v => w.push v
  | .cell id =>
    match (w.above base passed).findIdx? (fun t => t.cell? == some id) with
    | some n => w.lift (passed + n)
    | none => w.share s

def secure (w : World) (base : Nat) (s : Slot) : World :=
  w.secureUnder base 0 s

/-- Secures slots one after the other, each with an entry of its own. -/
def secureAll (w : World) (base passed : Nat) : List Slot → World
  | [] => w
  | s :: rest => (w.secureUnder base passed s).secureAll base (passed + 1) rest

/-- Drops the newest entry above the height `base` that stands for `s`, if one does. -/
def discard (w : World) (base : Nat) (s : Slot) : World :=
  match s with
  | .scalar _ => w
  | .cell id =>
    match (w.above base 0).findIdx? (fun t => t.cell? == some id) with
    | some n => (w.lift n).drop
    | none => w

/-- Discards slots one after the other. -/
def discardAll (w : World) (base : Nat) : List Slot → World
  | [] => w
  | s :: rest => (w.discard base s).discardAll base rest

/-! ## Allocation -/

def install (w : World) (p : Payload) : World :=
  { w with heap := w.heap.alloc p, stack := .cell w.heap.next :: w.stack }

/-- The newest `n` entries in the order in which they came. -/
def newest (w : World) (n : Nat) : List Slot :=
  (w.stack.take n).reverse

def pop (w : World) (n : Nat) : World :=
  { w with stack := w.stack.drop n }

/-- The newest `n` entries move into a new array. -/
def allocArray (w : World) (n : Nat) : World :=
  (w.pop n).install (.array (w.newest n).toArray)

/-- The newest entries move into a new object, one under each key. -/
def allocObject (w : World) (keys : List String) : World :=
  (w.pop keys.length).install (.object (keys.zip (w.newest keys.length)) none)

/-- A new empty object that holds one more reference to its class. -/
def allocInstance (w : World) (classId : CellId) : World :=
  if w.heap.isLive classId then
    { w with heap := w.heap.retain classId }.install (.object [] (some classId))
  else w.install (.object [] none)

def allocFunction (w : World) (f : NativeFunction) : World :=
  w.install (.function f)

def allocClass (w : World) (name : String) : World :=
  w.install (.classDesc name [])

/-- The newest entry moves into a new settled task. -/
def allocTask (w : World) : World :=
  (w.pop 1).install (.task w.top)

/-! ## Exchanges

An exchange puts the newest entry into a place of the world and leaves what was there, or null, as
the newest entry.
-/

/-- Exchange with a payload, by a function that takes the new slot and gives back the old one. -/
def exchangePayload (w : World) (id : CellId) (f : Payload → Slot → Option (Payload × Slot)) :
    World :=
  match w.stack, w.heap.payload? id with
  | s :: rest, some p =>
    match f p s with
    | some (q, old) => { w with heap := w.heap.setPayload id q, stack := old :: rest }
    | none => w
  | _, _ => w

def scope? (w : World) (id : ScopeId) : Option (Table Slot) :=
  w.scopes[id]?.join

def setScope (w : World) (id : ScopeId) (t : Option (Table Slot)) : World :=
  { w with scopes := w.scopes.setIfInBounds id t }

def global? (w : World) (id : ScopeId) (name : String) : Option Slot :=
  (w.scope? id).bind (·.get? name)

def exchangeGlobal (w : World) (id : ScopeId) (name : String) : World :=
  match w.stack, w.scope? id with
  | s :: rest, some t =>
    { w.setScope id (some (t.put name s)) with stack := (t.get? name).getD .null :: rest }
  | _, _ => w

def exchangeRegister (w : World) (name : String) (kind : Kind) : World :=
  match w.stack with
  | s :: rest =>
    { w with
      registers := w.registers.put name (.ofSlot kind s)
      stack := ((w.registers.get? name).map Value.slot).getD .null :: rest }
  | [] => w

/-! ## Scopes, registers and closures -/

def addScope (w : World) : World :=
  { w with scopes := w.scopes.push (some []) }

/-- A scope ends with a drop of all its values. -/
def dropScope (w : World) (id : ScopeId) : World :=
  match w.scope? id with
  | some t => { w.setScope id none with heap := w.heap.releaseSlots t.values }
  | none => w

def dropNewestScope (w : World) : World :=
  w.dropScope (w.scopes.size - 1)

def removeRegister (w : World) (name : String) : World :=
  match w.registers.get? name with
  | some v =>
    { w with registers := w.registers.erase name, heap := w.heap.releaseSlots [v.slot] }
  | none => w

def dropRegisters (w : World) : World :=
  { w with registers := [], heap := w.heap.releaseSlots (w.registers.values.map Value.slot) }

/-- The host keeps the newest entry, at most to the end of the session. -/
def keep (w : World) : World :=
  match w.stack with
  | s :: rest => { w with kept := s :: w.kept, stack := rest }
  | [] => w

/-- What the host has kept under `n` others becomes the newest entry, or null does. -/
def retrieve (w : World) (n : Nat) : World :=
  match w.kept.drop n with
  | s :: rest => { w with kept := w.kept.take n ++ rest, stack := s :: w.stack }
  | [] => w.push .null

/-- The host holds the newest entry while it is at work on a cell. -/
def hold (w : World) : World :=
  match w.stack with
  | s :: rest => { w with held := s :: w.held, stack := rest }
  | [] => w

/-- Drops what the host began to hold last. -/
def letGo (w : World) : World :=
  { w with held := w.held.drop 1, heap := w.heap.releaseSlots (w.held.take 1) }

def dropKept (w : World) : World :=
  { w with kept := [], heap := w.heap.releaseSlots w.kept }

/-- A new binding at the end of the list takes over the newest entries as captured values, whose
kinds are given in the order in which they came. -/
def bind (w : World) (label : Option String) (kinds : List Kind) (body : HostFunction) : World :=
  let captured := kinds.zipWith Value.ofSlot (w.newest kinds.length)
  { w with
    engine := { w.engine with bindings := w.engine.bindings.push ⟨label, captured, body⟩ }
    stack := w.stack.drop kinds.length }

def dropBindings (w : World) : World :=
  { w with
    engine := { w.engine with bindings := #[] }
    heap := w.heap.releaseSlots
      (w.engine.bindings.toList.flatMap Binding.slots) }

/-! ## Text blocks -/

def allocText (w : World) : World :=
  { w with ledger := w.ledger.alloc }

def freeText (w : World) (block : Nat) : World :=
  { w with ledger := w.ledger.free block }

/-- An empty world around an engine with one scope. -/
def initial (config : Config) : World :=
  { heap := .empty
    ledger := .empty
    scopes := #[some []]
    engine := ⟨config, 0, #[], true⟩
    registers := []
    kept := []
    held := []
    stack := []
    lost := []
    guards := []
    exclusion := true }

end World
end Enclave
