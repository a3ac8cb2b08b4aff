import Enclave.Boundary.Record
import Enclave.Host.Code
import Enclave.Table

/-!
# Payloads

What a heap cell holds: an array, an object that may be linked to a class, a native function, a
class descriptor with its methods, or a settled task.
-/
namespace Enclave

/-- Functions that a foreign host hands over as they are, working on records. -/
inductive Foreign where
  /-- The sum of the number fields of all argument records. -/
  | sum
  /-- A text of the argument count, the receiver's code and every argument's code. -/
  | codes
  /-- The same record at every call. -/
  | fixed (record : Record)
  /-- Code that sees the argument count, the records and the receiver as they are lent. -/
  | code (body : Int → Option (List Record) → Option Record → HostCode)

/-- What a native function runs: a closure bound with the engine, named by its place in the list
of bindings, or a foreign function. A closure's place is missing when none was given. -/
inductive NativeFunction where
  | closure (binding : Option Nat)
  | foreign (f : Foreign)

inductive Payload where
  | array (elements : Array Slot)
  | object (properties : Table Slot) (classLink : Option CellId)
  | function (f : NativeFunction)
  | classDesc (name : String) (methods : Table Slot)
  | task (result : Slot)

namespace Payload

def kind : Payload → Kind
  | array _ => .array
  | object _ _ => .object
  | function _ => .function
  | classDesc _ _ => .classDesc
  | task _ => .task

/-- Every slot stored in the payload; the class link is one of them. -/
def slots : Payload → List Slot
  | array elements => elements.toList
  | object properties classLink => properties.values ++ classLink.toList.map Slot.cell
  | function _ => []
  | classDesc _ methods => methods.values
  | task result => [result]

/-- The references that the payload owns, one entry for each. -/
def references (p : Payload) : List CellId :=
  p.slots.filterMap Slot.cell?

end Payload
end Enclave
