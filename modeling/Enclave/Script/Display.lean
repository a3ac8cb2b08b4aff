import Enclave.Number.Text
import Enclave.Text.Quoted
import Enclave.World

/-!
# Display text

The text of a slot in messages, in joined text and as the outcome of a run. Arrays are their
elements with commas between, down to a depth at which an array is an ellipsis, so that arrays
that contain themselves have a text too.
-/
namespace Enclave

/-- How many arrays may stand inside one another. -/
def displayDepth : Nat := 32

namespace Scalar

def display : Scalar → String
  | null => "null"
  | number n => Number.text n
  | bool b => if b then "true" else "false"
  | string s => s

end Scalar

namespace World

/-- `room` is the number of arrays that may still be opened. A payload that an exclusive guard
hides is just an object. -/
def displayIn (w : World) : (room : Nat) → Slot → String
  | _, .scalar v => v.display
  | room, .cell id =>
    match w.visible? id with
    | none => "[object]"
    | some (.array elements) =>
      match room with
      | 0 => "..."
      | room + 1 => String.intercalate "," (elements.toList.map (displayIn w room))
    | some (.object _ _) => "[object Object]"
    | some (.function _) => "function () \x7b [native code] \x7d"
    | some (.classDesc name _) => "class " ++ name
    | some (.task _) => "[object Task]"

def display (w : World) (s : Slot) : String :=
  w.displayIn displayDepth s

/-- The debug form of a slot shows a cell's kind and reference count. -/
def debugSlot (w : World) : Slot → String
  | .scalar .null => "Null"
  | .scalar (.number n) => "Number(" ++ Number.debugText n ++ ")"
  | .scalar (.bool b) => "Bool(" ++ (if b then "true" else "false") ++ ")"
  | .scalar (.string s) => "Str(" ++ Text.quoted s ++ ")"
  | .cell id =>
    match w.heap.cell? id with
    | some cell =>
      "HeapRef(" ++ cell.kind.name ++ " 0x*, refs=" ++ toString cell.refs ++ ")"
    | none => "Null"

/-- The kind of what a slot holds. -/
def kindOf (w : World) : Slot → Kind
  | .scalar v => v.kind
  | .cell id => (w.heap.kind? id).getD .null

end World
end Enclave
