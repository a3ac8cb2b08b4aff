import Enclave.Act
import Enclave.Script.Display

/-!
# Property access

Reading and writing members of slots. A key is a slot: it names a property by its text, and an
array element by its number.
-/
namespace Enclave

/-- The largest number that addresses an array element. -/
def maxElementIndex : Nat := Nat.pow 2 32 - 1

/-- The largest number of nulls that one write may put between the old end and the new element. -/
def maxElementGap : Nat := Nat.pow 2 16

/-- The method that runs when an instance is made. -/
def constructorName : String := "constructor"

def World.propertyName (w : World) (key : Slot) : String :=
  match key with
  | .scalar (.string s) => s
  | .scalar (.number n) => Number.text n
  | other => w.display other

/-- The element that a key addresses: a whole number in range, or text that spells one. -/
def elementIndex? (key : Slot) : Option Nat :=
  let n? := match key with
    | .scalar (.number n) => some n
    | .scalar (.string s) => Number.read? s.toList
    | _ => none
  n?.bind fun n => (Number.toWhole? n).filter (· ≤ maxElementIndex)

/-- May an array of this size be written at this index? -/
def isWritable (size index : Nat) : Bool :=
  index - size ≤ maxElementGap

/-- Writes an element, with nulls up to it when it lies past the end. Gives the new elements and
the slot that was replaced, if one was. -/
def storeElement (elements : Array Slot) (index : Nat) (value : Slot) :
    Except Fault (Array Slot × Option Slot) :=
  match elements[index]? with
  | some old => .ok (elements.setIfInBounds index value, some old)
  | none =>
    if isWritable elements.size index then
      let padding := Array.replicate (index - elements.size) Slot.null
      .ok ((elements ++ padding).push value, none)
    else .error (.indexOutOfRange index)

namespace Payload

/-- Puts a slot at an element. -/
def putElement (index : Nat) (p : Payload) (value : Slot) : Option (Payload × Slot) :=
  match p with
  | array elements =>
    match storeElement elements index value with
    | .ok (new, old) => some (array new, old.getD .null)
    | .error _ => none
  | _ => none

/-- Puts a slot at the end of an array. -/
def pushElement (p : Payload) (value : Slot) : Option (Payload × Slot) :=
  match p with
  | array elements => some (array (elements.push value), .null)
  | _ => none

/-- Puts a slot under an object's own key. -/
def putProperty (key : String) (p : Payload) (value : Slot) : Option (Payload × Slot) :=
  match p with
  | object properties classLink =>
    some (object (properties.put key value) classLink, (properties.get? key).getD .null)
  | _ => none

/-- Puts a slot among a class's methods. -/
def putMethod (key : String) (p : Payload) (value : Slot) : Option (Payload × Slot) :=
  match p with
  | classDesc name methods =>
    some (classDesc name (methods.put key value), (methods.get? key).getD .null)
  | _ => none

end Payload

namespace Act

/-- Shared access to a payload, or `refused` while something hides it. -/
def reading {α : Type} (id : CellId) (x : Payload → Act α) (refused : Act α) : Act α :=
  accessing ⟨.payload id, false⟩
    (do
      let w ← world
      match w.heap.payload? id with
      | some p => x p
      | none => refused)
    refused

/-- Exclusive access to a payload. -/
def writing {α : Type} (id : CellId) (x : Payload → Act α) (refused : Act α) : Act α :=
  accessing ⟨.payload id, true⟩
    (do
      let w ← world
      match w.heap.payload? id with
      | some p => x p
      | none => refused)
    refused

/-- A new reference to what was found, or null. -/
def shareFound (found : Option Slot) : Act Unit :=
  share (found.getD .null)

/-- An own property comes first, then a method of the class, whatever the property holds. -/
def readProperty (properties : Table Slot) (classLink : Option CellId) (name : String) :
    Act Unit :=
  match properties.get? name with
  | some s => share s
  | none =>
    match classLink with
    | none => push .null
    | some id =>
      reading id
        (fun
          | .classDesc _ methods => shareFound (methods.get? name)
          | _ => push .null)
        (push .null)

/-- The member of `target` that `key` names becomes the newest entry. -/
def getMember (target key : Slot) : Act Unit := do
  let w ← world
  let name := w.propertyName key
  match target with
  | .scalar .null => raise (.readOfNull name)
  | .scalar (.string s) =>
    if name = "length" then push (.number (Number.ofWhole s.length)) else push .null
  | .scalar _ => push .null
  | .cell id =>
    reading id
      (fun
        | .array elements =>
          if name = "length" then push (.number (Number.ofWhole elements.size))
          else shareFound ((elementIndex? key).bind fun i => elements[i]?)
        | .object properties classLink => readProperty properties classLink name
        | .classDesc className _ =>
          if name = "name" then push (.string className) else push .null
        | .task result => if name = "result" then share result else push .null
        | .function _ => push .null)
      (push .null)

/-- The newest entry becomes the member of `target` that `key` names. What the member held is
dropped after the access has ended. -/
def setMember (target key : Slot) : Act Unit := do
  let w ← world
  let name := w.propertyName key
  match target with
  | .scalar v => raise (.cannotSet name v.kind)
  | .cell id => do
    writing id
      (fun
        | .array elements =>
          match elementIndex? key with
          | none => raise (.invalidIndex name)
          | some index =>
            if isWritable elements.size index then
              change (·.exchangePayload id (Payload.putElement index))
            else raise (.indexOutOfRange index)
        | .object _ _ => change (·.exchangePayload id (Payload.putProperty name))
        | _ => raise (.cannotSet name (w.kindOf target)))
      (raise (.locked name))
    drop

end Act
end Enclave
