import Enclave.Script.Evaluate

/-!
# Literals

Descriptions of slots, from which cells are made.
-/
namespace Enclave

inductive Literal where
  | scalar (v : Scalar)
  | array (elements : List Literal)
  /-- A repeated key takes the last of its values. -/
  | object (properties : List (String × Literal)) (classLink : Option Literal)
  | classDesc (name : String) (methods : List (String × Literal))
  | task (result : Literal)
  | function
  deriving Inhabited

namespace Act

/-- A new object with a link to the newest entry, which is dropped, if it is a cell. -/
def linkInstance : Act Unit := do
  let s ← top
  match s with
  | .cell id => do
    change (·.allocInstance id)
    settle 1
  | .scalar _ => do
    drop
    change (·.install (.object [] none))

/-- Moves the newest entry into the cell under it. -/
def putUnder (exchange : Payload → Slot → Option (Payload × Slot)) : Act Unit := do
  let s ← peek 1
  match s with
  | .cell id => change (·.exchangePayload id exchange)
  | .scalar _ => pure ()
  drop

end Act

open Act

mutual

/-- The slot that a literal describes becomes the newest entry. -/
def Literal.make : Literal → Act Unit
  | .scalar v => push v
  | .array elements => do
    makeAll elements
    change (·.allocArray elements.length)
  | .object properties classLink => do
    makeLink classLink
    makeEntries Payload.putProperty properties
  | .classDesc name methods => do
    change (·.allocClass name)
    makeEntries Payload.putMethod methods
  | .task result => do
    result.make
    change World.allocTask
  | .function => change (·.allocFunction (.foreign .sum))

def Literal.makeAll : List Literal → Act Unit
  | [] => pure ()
  | l :: rest => do
    l.make
    makeAll rest

def Literal.makeLink : Option Literal → Act Unit
  | some l => do
    l.make
    linkInstance
  | none => change (·.install (.object [] none))

def Literal.makeEntries (exchange : String → Payload → Slot → Option (Payload × Slot)) :
    List (String × Literal) → Act Unit
  | [] => pure ()
  | (key, l) :: rest => do
    l.make
    putUnder (exchange key)
    makeEntries exchange rest

end

end Enclave
