import Enclave.Session.Host

/-!
# Direct calls

Steps that call an entry point as it is, with missing arguments where the step has none. Direct
calls never fail; they answer what the entry point answers.
-/
namespace Enclave

/-- The largest block that the allocator hands out. -/
def maxBlock : Nat := Nat.pow 2 46

namespace Act

def answerStatus (ok : Bool) : Act Effect :=
  pure (.answer (.count (if ok then 1 else 0)))

/-- What was given out is taken over; without a place for it, it is lost together with its
reference and its block. -/
def answerGiven (out : Bool) (given : Given) : Act Effect := do
  if out then do
    let v ← takeOver given.record
    pure (.putGiven given.status given.record v)
  else do
    change World.forget
    pure (.answer (.status given.status))

/-- The newest entry as a value of a kind, if it is a cell. -/
def putTop (kind : Kind) : Act Effect := do
  let s ← top
  pure (.put (.ofSlot kind s))

/-- A raw function as the runtime gets it. The handle in a fixed record is kept for as long as the
session lasts. -/
def rawNative (f : Option RawFunction) : Act (Option NativeFunction) := do
  match f with
  | none => pure none
  | some .sum => pure (some (.foreign .sum))
  | some .codes => pure (some (.foreign .codes))
  | some (.code body) => pure (some (.foreign (.code body)))
  | some .unbound => pure (some (.closure none))
  | some (.fixed d) => do
    let w ← world
    match w.registerHandle d.register with
    | some id => do
      share (.cell id)
      change World.keep
    | none => pure ()
    pure (some (.foreign (.fixed (w.draftRecord d))))

/-- The handle of a register becomes the newest entry, and the register null; without a handle the
register stays as it is. -/
def detachInto (register : Option String) : Act Unit := do
  let w ← world
  match register, w.registerHandle register with
  | some name, some _ => do
    let _ ← takeRegister name
  | _, _ => push .null

/-- A record that is handed over: the handle that it names leaves its register. -/
def handOverDraft (v : Option Draft) : Act (Option Record) := do
  let w ← world
  match v with
  | none => push .null
  | some d => detachInto (if d.isHandle then d.register else none)
  pure (v.map w.draftRecord)

/-- Text is read and its block given back. -/
def readAndFree (t : TextRef) : Act String := do
  freeText t.block
  pure (readText t.bytes)

def answerText (s : String) : Act Effect :=
  pure (.answer (.text s))

def allocateAndFree (size : Nat) : Act Effect := do
  if size ≤ maxBlock then do
    let w ← world
    change World.allocText
    freeText (some w.ledger.next)
    pure (.answer (.bool true))
  else pure (.answer (.bool false))

/-- A runtime of its own gets a global and ends. -/
def secondRuntime (name : Option Text.Bytes) (v : Option Draft) : Act Effect := do
  let r ← handOverDraft v
  change World.addScope
  let w ← world
  let ok ← declareGlobal (w.scopes.size - 1) true name r
  change World.dropNewestScope
  answerStatus ok

/-- The function leaves its register in every case. -/
def addMethodDirect (handle : Option String) (name : Option Text.Bytes) (f : Option String) :
    Act Effect := do
  let w ← world
  detachInto f
  let ok ← addMethod (w.registerHandle handle) name
  answerStatus ok

def retainAndRelease (handle : Option String) : Act Effect := do
  let w ← world
  match w.registerHandle handle with
  | some id => do
    share (.cell id)
    let w ← world
    drop
    pure (.answer (.count (((w.heap.cell? id).map (·.refs)).getD 0)))
  | none => pure (.answer .null)

def callDirect (on : Surroundings) : DirectCall → Act Effect
  | .version => pure (.answer (.count interfaceVersion))
  | .allocateAndFree size => allocateAndFree size
  | .run running code => do
    match ← runText on running code with
    | some t => answerText (withoutDetail (← readAndFree t))
    | none => pure (.answer .null)
  | .secondRuntime name v => secondRuntime name v
  | .createNative f => do
    createNative (← rawNative f)
    putTop .function
  | .register running name f => do
    let f ← rawNative f
    let ok ← registerNative on.scope running name f
    answerStatus ok
  | .declare running name v => do
    let r ← handOverDraft v
    let ok ← declareGlobal on.scope running name r
    answerStatus ok
  | .createClass running name => do
    createClass running name
    putTop .classDesc
  | .addMethod handle name f => addMethodDirect handle name f
  | .arrayLength handle => do
    let w ← world
    let n ← arrayLength (w.registerHandle handle)
    pure (.answer (.count n))
  | .arrayGet handle index out => do
    let w ← world
    answerGiven out (← arrayGet (w.registerHandle handle) index)
  | .arraySet handle index v => do
    let w ← world
    answerStatus (← arraySet (w.registerHandle handle) index (v.map w.draftRecord))
  | .arrayPush handle v => do
    let w ← world
    answerStatus (← arrayPush (w.registerHandle handle) (v.map w.draftRecord))
  | .objectHas handle key => do
    let w ← world
    answerStatus (← objectHas (w.registerHandle handle) key)
  | .objectGet handle key out => do
    let w ← world
    answerGiven out (← objectGet (w.registerHandle handle) key)
  | .objectSet handle key v => do
    let w ← world
    answerStatus (← objectSet (w.registerHandle handle) key (v.map w.draftRecord))
  | .objectKeys handle => do
    let w ← world
    answerText (← readAndFree (← objectKeys (w.registerHandle handle)))
  | .retainAndRelease handle => retainAndRelease handle
  | .call running handle passed out => do
    let w ← world
    let p := w.draftPassed passed
    answerGiven out
      (← callFunction on.call running (w.registerHandle handle) p.argc p.argv p.receiver)
  | .createTask v => do
    let w ← world
    createTask (v.map w.draftRecord)
    putTop .task
  | .taskResult handle out => do
    let w ← world
    answerGiven out (← taskResult (w.registerHandle handle))

end Act
end Enclave
