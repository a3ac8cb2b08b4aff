import Enclave.Act
import Enclave.Script.Display

/-!
# Transfer of slots

How a slot becomes a record and a record a slot. Lending gives away nothing. A record that carries
a reference of its own, into the runtime or out of it, is accompanied by the newest entry of the
working stack, which is that reference.
-/
namespace Enclave

namespace World

/-- A view of a slot for the time of a call: text is lent and no reference is taken. -/
def lend (w : World) : Slot → Record
  | .scalar .null => .null
  | .scalar (.number n) => .ofNumber n
  | .scalar (.bool b) => .ofBool b
  | .scalar (.string s) => .ofText ⟨Text.untilZero (Text.encode s), none⟩
  | .cell id => .ofHandle (w.kindOf (.cell id)) id

end World

namespace Record

/-- The text that the runtime reads from a record; broken bytes are replaced, and no text at all
is the empty one. -/
def lossyText (r : Record) : String :=
  match r.text with
  | some t => Text.decodeLossy (Text.untilZero t.bytes)
  | none => ""

/-- What the runtime makes of a record. Unknown codes and missing handles are null. -/
def slot (r : Record) : Slot :=
  match r.kind? with
  | some .number => .scalar (.number r.number)
  | some .bool => .scalar (.bool (r.boolean != 0))
  | some .string => .scalar (.string r.lossyText)
  | some kind =>
    if kind.isHandle then
      match r.handle with
      | some id => .cell id
      | none => .null
    else .null
  | none => .null

/-- The block that a text record hands over, if it lies in one. -/
def textBlock? (r : Record) : Option Nat :=
  if r.kind? = some .string then r.text.bind (·.block) else none

end Record

namespace Act

/-- The record's sender keeps its reference: the slot takes a new one. -/
def borrow (r : Record) : Act Unit :=
  share r.slot

/-- The record's reference, the newest entry, moves into the slot. -/
def consume (r : Record) : Act Unit := do
  match r.slot with
  | .cell _ => pure ()
  | .scalar v => do
    drop
    push v

def freeText (block : Option Nat) : Act Unit :=
  match block with
  | some b => change (·.freeText b)
  | none => pure ()

/-- Takes over the result of a native function: its reference is adopted, its text copied and the
block given back. -/
def adoptReturn (r : Record) : Act Unit := do
  consume r
  freeText r.textBlock?

/-- A copy of text in a block of its own. -/
def allocText (s : String) : Act TextRef := do
  let w ← world
  change World.allocText
  pure ⟨Text.untilZero (Text.encode s), some w.ledger.next⟩

/-- The record of a slot for a receiver who will own it: text lies in a block, and the newest entry
is a fresh reference. -/
def giveOut (s : Slot) : Act Record := do
  let w ← world
  match s with
  | .scalar (.string text) => do
    let t ← allocText text
    push .null
    pure (.ofText t)
  | .scalar _ => do
    push .null
    pure (w.lend s)
  | .cell _ => do
    share s
    pure (w.lend s)

end Act
end Enclave
