import Enclave.Host.Native
import Enclave.Session.Literal
import Enclave.Session.Shown

/-!
# Trials

Single operations on slots made from literals, and scripts run without a host, each in a world of
its own.
-/
namespace Enclave.Trial

open Act

/-- Runs an act in a world of its own. -/
def inNewWorld {α : Type} (x : Act α) : Outcome α :=
  x ⟨.initial .default, []⟩

/-! ## Slots -/

structure Description where
  kind : Kind
  truthy : Bool
  number : Float
  display : String
  debug : String
  shown : Shown

def describe (l : Literal) : Act Description := do
  l.make
  let s ← top
  let w ← world
  pure ⟨w.kindOf s, s.truthy, s.toNumber, w.display s, w.debugSlot s, w.showSlot s⟩

def strictEqual (a b : Literal) : Act Bool := do
  a.make
  b.make
  let x ← peek 1
  let y ← top
  pure (x.strictEq y)

/-- Compares a slot with itself. -/
def equalsItself (a : Literal) : Act Bool := do
  a.make
  let x ← top
  pure (x.strictEq x)

/-! ## Members -/

def readMember (target key : Literal) : Act (Except Fault Shown) := do
  target.make
  key.make
  let t ← peek 1
  let k ← top
  match ← recover (getMember t k) with
  | .ok () => do
    let s ← top
    let w ← world
    pure (.ok (w.showSlot s))
  | .error fault => pure (.error fault)

/-- The target after the write, and the fault if there was one. -/
def writeMember (target key value : Literal) : Act (Shown × Option Fault) := do
  target.make
  key.make
  value.make
  let t ← peek 2
  let k ← peek 1
  let outcome ← recover (setMember t k)
  let w ← world
  let fault := match outcome with
    | .ok () => none
    | .error fault => some fault
  pure (w.showSlot t, fault)

structure Storing where
  replaced : Bool
  previous : Shown
  elements : Shown
  fault : Option Fault

/-- Writes one element of an array. -/
def writeElement (elements : List Literal) (index : Nat) (value : Literal) : Act Storing := do
  Literal.makeAll elements
  value.make
  let w ← world
  let values := ((w.stack.take (elements.length + 1)).drop 1).reverse.toArray
  let view (slots : Array Slot) := Shown.ofElements (w.showIn (shownDepth - 1)) slots
  match storeElement values index w.top with
  | .ok (new, old) =>
    pure ⟨old.isSome, (old.map w.showSlot).getD .null, view new, none⟩
  | .error fault => pure ⟨false, .null, view values, some fault⟩

/-! ## Scripts -/

/-- The outcome of a script, and the cells alive after its value was dropped. -/
structure ScriptReport where
  outcome : Except Fault (Shown × String)
  cells : Nat

def runOne (on : Surroundings) (code : String) : Act ScriptReport := do
  let outcome ← match ← runScript on code with
    | .ok () => do
      let s ← top
      let w ← world
      drop
      pure (.ok (w.showSlot s, w.display s))
    | .error fault => pure (.error fault)
  let w ← world
  pure ⟨outcome, w.heap.tally.live⟩

structure ScriptsReport where
  runs : List ScriptReport
  globals : List (Option Shown)
  left : Nat

/-- Runs scripts one after the other in one scope, reads globals, and ends the scope. -/
def runScripts (codes globals : List String) : Act ScriptsReport := do
  let w ← world
  let on := w.surroundings
  let runs ← codes.mapM (runOne on)
  let w ← world
  let found := globals.map fun name => (w.global? on.scope name).map w.showSlot
  change (·.dropScope on.scope)
  let w ← world
  pure ⟨runs, found, w.heap.tally.live⟩

end Enclave.Trial
