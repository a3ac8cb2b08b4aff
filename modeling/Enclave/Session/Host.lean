import Enclave.Host.Native
import Enclave.Session.Step

/-!
# Host steps

What each step on values, views and records does. A step keeps what it holds on the working stack
above its base, and ends with an effect: an answer, or a value whose reference is the newest entry
and which a register may take over.
-/
namespace Enclave

inductive Effect where
  | answer (a : Answer)
  | put (v : Value)
  | putRecord (r : Record) (v : Value)
  | putGiven (ok : Bool) (r : Record) (v : Value)

/-- What a step is about to be judged by: counts at an earlier time. -/
structure Marks where
  heap : Tally
  text : TextCounts
  moments : Nat

def Marks.start : Marks :=
  ⟨Tally.zero, ⟨0, 0⟩, 0⟩

namespace World

def textCounts (w : World) : TextCounts :=
  ⟨w.ledger.allocated, w.ledger.freed⟩

/-- A register that is not there reads as null. -/
def registerValue (w : World) (name : String) : Value :=
  (w.registers.get? name).getD .null

def registerHandle (w : World) (name : Option String) : Option CellId :=
  name.bind fun name => (w.registerValue name).handle?

def operandValue (w : World) : Operand → Value
  | .scalar v => .scalar v
  | .register name => w.registerValue name

/-- The record of a draft, which lends the register's handle. -/
def draftRecord (w : World) (d : Draft) : Record :=
  ⟨d.code, d.number, d.boolean, d.text.map fun bytes => ⟨Text.untilZero bytes, none⟩,
    w.registerHandle d.register⟩

/-- What a call passes; it counts the records unless it is told otherwise. -/
def draftPassed (w : World) (d : DraftCall) : Passed :=
  let argv := d.argv.map fun drafts => drafts.map w.draftRecord
  ⟨d.argc.getD (argv.getD []).length, argv, d.receiver.map w.draftRecord⟩

end World

namespace Draft

/-- Does the code belong to a handle kind? -/
def isHandle (d : Draft) : Bool :=
  (Kind.ofCode? d.code).any Kind.isHandle

end Draft

namespace Act

def answered (a : Answer) : Act (Except HostError Effect) :=
  pure (.ok (.answer a))

/-- What follows a check or an act that may fail. -/
def whenDone {α β : Type} (x : Act (Except HostError α))
    (next : α → Act (Except HostError β)) : Act (Except HostError β) := do
  match ← x with
  | .ok a => next a
  | .error e => pure (.error e)

def putting (x : Act (Except HostError Value)) : Act (Except HostError Effect) :=
  whenDone x fun v => pure (.ok (.put v))

def done (x : Act (Except HostError Unit)) : Act (Except HostError Effect) :=
  whenDone x fun _ => answered .null

/-! ## Registers -/

/-- The value of a register becomes the newest entry, and the register null. -/
def takeRegister (name : String) : Act Value := do
  let w ← world
  let v := w.registerValue name
  push .null
  if w.registers.has name then change (·.exchangeRegister name .null) else pure ()
  pure v

/-- The newest entry goes into a register, whose old value is dropped, or is dropped itself. -/
def place (into : Option String) (v : Value) : Act Unit := do
  match into with
  | some name => change (·.exchangeRegister name v.kind)
  | none => pure ()
  drop

/-- A register's value is cloned into a view. -/
def openView (kind : Kind) : ViewSource → Act (Except HostError (View kind))
  | .register name => do
    let w ← world
    viewOf kind (w.registerValue name)
  | .empty => pure (.ok .empty)

/-- What a view's register holds. -/
def sourceShown : ViewSource → Act (Except HostError Effect)
  | .register name => do
    let w ← world
    answered (.value (w.showValue (w.registerValue name)))
  | .empty => answered .null

/-! ## Values -/

/-- A clone of an operand. -/
def cloneOperand (o : Operand) : Act Value := do
  let w ← world
  let v := w.operandValue o
  share v.slot
  pure v

def detachRegister (name : String) : Act (Except HostError Effect) := do
  let w ← world
  match w.registers.get? name with
  | none => answered .null
  | some v =>
    if v.isHandle then do
      let v ← takeRegister name
      pure (.ok (.put v))
    else answered (.bool false)

/-- A value from the handle of a register, under a kind of the host's choice. -/
def fromHandle (kind : Kind) (name : String) (claim : Claim) : Act (Except HostError Effect) := do
  let w ← world
  match w.registerHandle (some name) with
  | some id =>
    if kind.isHandle then do
      match claim with
      | .retain => share (.cell id)
      | .adopt => do
        let _ ← takeRegister name
      pure (.ok (.put (.handle kind id)))
    else do
      push .null
      pure (.ok (.put .null))
  | none => do
    push .null
    pure (.ok (.put .null))

def displayRegister (name : String) : Act (Except HostError Effect) := do
  let w ← world
  match w.registerHandle (some name) with
  | some id => answered (.text (w.display (.cell id)))
  | none => answered (.text (w.display .null))

def countReferences (name : String) : Act (Except HostError Effect) := do
  let w ← world
  match (w.registerHandle (some name)).bind w.heap.cell? with
  | some cell => answered (.count cell.refs)
  | none => answered .null

/-- The counts since a mark, or since the beginning. -/
def countStats (marks : Marks) (whole brief : Bool) : Act (Except HostError Effect) := do
  let w ← world
  let since := if whole then Marks.start else marks
  let text := w.textCounts
  answered (.stats (w.heap.tally.since since.heap) brief
    ⟨text.allocated - since.text.allocated, text.freed - since.text.freed⟩)

/-! ## Closures -/

/-- The values that a closure keeps are cloned for it. -/
def cloneAll : List Operand → Act (List Value)
  | [] => pure []
  | o :: rest => do
    let v ← cloneOperand o
    let more ← cloneAll rest
    pure (v :: more)

def registerCode (on : Surroundings) (base : Nat) (name : String) (label : Option String)
    (kept : List Operand) (body : HostFunction) : Act (Except HostError Effect) := do
  let captured ← cloneAll kept
  done (registerClosure on base name label captured body)

def createCode (base : Nat) (label : Option String) (kept : List Operand) (body : HostFunction) :
    Act (Except HostError Effect) := do
  let captured ← cloneAll kept
  let view ← createClosure base label captured body
  pure (.ok (.put view.value))

/-! ## Views -/

/-- The kind of view is known only when the step is carried out. -/
def viewStep (kind : Kind) (source : ViewSource) : Act (Except HostError Effect) :=
  whenDone (openView kind source) fun view => answered (.bool view.handle?.isNone)

def listElements (view : View .array) : Act (Except HostError (List Value)) := do
  let n ← viewLength view
  arrayElements view 0 n

def callStep (on : Surroundings) (source : ViewSource) (args : List Operand)
    (receiver : Operand) : Act (Except HostError Effect) := do
  let given ← cloneAll args
  let w ← world
  whenDone (openView .function source) fun view =>
    putting (callView on view given (w.operandValue receiver))

/-- A view gives up its handle, which is then released. -/
def detachView (source : ViewSource) : Act (Except HostError Effect) :=
  whenDone (openView .function source) fun view => answered (.flags view.handle?.isSome true)

/-- The function is taken out of its register, also if it turns out to be none. -/
def takeFunction : ViewSource → Act (Except HostError (View .function))
  | .register name => do
    let v ← takeRegister name
    viewTaken .function v
  | .empty => pure (.ok .empty)

def addMethodStep (base : Nat) (source : ViewSource) (name : String) (f : ViewSource) :
    Act (Except HostError Effect) :=
  whenDone (openView .classDesc source) fun target =>
    whenDone (takeFunction f) fun method =>
      whenDone (installMethod base target name method) fun _ => sourceShown source

/-! ## Records -/

/-- A value leaves its register as a record and comes back from it. -/
def consumeStep (name : String) : Act (Except HostError Effect) := do
  let v ← takeRegister name
  whenDone (handOver v) fun r => do
    let back ← takeOver r
    pure (.ok (.putRecord r back))

def handBackStep (name : String) : Act (Except HostError Effect) := do
  let v ← takeRegister name
  let r ← handBack v
  let back ← takeOver r
  pure (.ok (.putRecord r back))

def takeOverStep (d : Draft) : Act (Except HostError Effect) := do
  let w ← world
  let r ← endow (w.draftRecord d)
  let v ← takeOver r
  pure (.ok (.put v))

/-- The place of the closure that a register's function runs. -/
def closurePlace (name : String) : Act (Option Nat) := do
  let w ← world
  match (w.registerHandle (some name)).bind w.heap.payload? with
  | some (.function (.closure i)) => pure i
  | _ => pure none

def callClosureStep (on : Surroundings) (name : String) (d : DraftCall) :
    Act (Except HostError Effect) := do
  let w ← world
  let i ← closurePlace name
  let p := w.draftPassed d
  let r ← on.call none (.closure i) p.argc p.argv p.receiver
  let v ← takeOver r
  pure (.ok (.putRecord r v))

end Act
end Enclave
