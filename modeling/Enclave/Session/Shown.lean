import Enclave.World

/-!
# Shown values

Values as a tree without references, for reports. Very deep and very long values are cut, and what
an exclusive guard hides stays hidden. To show a value takes no reference and changes no count.
-/
namespace Enclave

inductive Shown where
  | null
  | bool (b : Bool)
  | number (n : Float)
  | text (s : String)
  | array (elements : List Shown)
  /-- The length, the first elements and the last one. -/
  | longArray (length : Nat) (front : List Shown) (last : Shown)
  | object (properties : List (String × Shown))
  /-- An object of a class, whose name may be hidden. -/
  | classed (properties : List (String × Shown)) (className : Option String)
  | function
  | classDesc (name : String) (methods : List String)
  | task (result : Shown)
  | deep (kind : Kind)
  | locked (kind : Kind)
  /-- A host value that takes its cell for one of another kind. -/
  | tagged (kind : Kind) (cell : Shown)
  deriving Inhabited

/-- How deep a value is shown. -/
def shownDepth : Nat := 8

/-- The longest array that is shown in full. -/
def shownLength : Nat := 40

/-- How many elements of a longer array are shown before the last. -/
def shownFront : Nat := 20

namespace Shown

def ofScalar : Scalar → Shown
  | .null => null
  | .bool b => bool b
  | .number n => number n
  | .string s => text s

/-- An array, cut if it is too long, by a function that shows one element. -/
def ofElements (view : Slot → Shown) (elements : Array Slot) : Shown :=
  if elements.size ≤ shownLength then array (elements.toList.map view)
  else
    longArray elements.size ((elements.toList.take shownFront).map view)
      (view ((elements.back?).getD .null))

end Shown

namespace World

/-- The name of a class, unless it is hidden. -/
def className? (w : World) (id : CellId) : Option String :=
  match w.visible? id with
  | some (.classDesc name _) => some name
  | _ => none

def shownPayload (w : World) (view : Slot → Shown) : Payload → Shown
  | .array elements => Shown.ofElements view elements
  | .object properties classLink =>
    let shown := properties.map fun (key, s) => (key, view s)
    match classLink with
    | some id => .classed shown (w.className? id)
    | none => .object shown
  | .function _ => .function
  | .classDesc name methods => .classDesc name methods.keys
  | .task result => .task (view result)

def showIn (w : World) : (room : Nat) → Slot → Shown
  | _, .scalar v => .ofScalar v
  | room, .cell id =>
    let kind := w.heap.kind? id |>.getD .null
    match w.visible? id, room with
    | none, _ => .locked kind
    | some _, 0 => .deep kind
    | some p, room + 1 => w.shownPayload (showIn w room) p

def showSlot (w : World) (s : Slot) : Shown :=
  w.showIn shownDepth s

def showValue (w : World) : Value → Shown
  | .scalar v => .ofScalar v
  | .handle kind id =>
    let shown := w.showSlot (.cell id)
    if w.heap.kind? id == some kind then shown else .tagged kind shown

end World
end Enclave
