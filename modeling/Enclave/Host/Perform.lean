import Enclave.Host.Code
import Enclave.Host.Conversion

/-!
# Requests

What each request of host code does, by way of the entry points. The references behind the values
of a reply are new entries. A value that a request consumes is the entry above `base` that stands
for it already, or else a new one.
-/
namespace Enclave.Act

/-! ## Views -/

/-- The newest entry as a view of a kind that it is sure to have. -/
def viewTop (kind : Kind) : Act (View kind) := do
  let s ← top
  pure ⟨s.cell?⟩

/-- The newest entry as a view, unless the runtime gave none. -/
def viewMade (kind : Kind) : Act (Except HostError (View kind)) := do
  let view ← viewTop kind
  match view.handle? with
  | some _ => pure (.ok view)
  | none => do
    drop
    pure (.error .unavailable)

/-- A view takes over the newest entry, which is what the value owns, if the value is of its
kind. -/
def viewTaken (kind : Kind) (v : Value) : Act (Except HostError (View kind)) :=
  if v.kind = kind then pure (.ok ⟨v.handle?⟩)
  else do
    drop
    pure (.error (.kindMismatch kind v.kind))

/-- A view of a clone of the value. -/
def viewOf (kind : Kind) (v : Value) : Act (Except HostError (View kind)) := do
  share v.slot
  viewTaken kind v

/-! ## Replies -/

/-- Takes over what an entry gave out; a refusal leaves nothing. -/
def accept (operation : Operation) (given : Given) : Act (Except HostError Value) := do
  let v ← takeOver given.record
  if given.status then pure (.ok v)
  else do
    drop
    pure (.error (.rejected operation))

def confirm (operation : Operation) (status : Bool) : Act (Except HostError Unit) :=
  pure (if status then .ok () else .error (.rejected operation))

def giveNull : Act (Except HostError Value) := do
  push .null
  pure (.ok .null)

/-- A check that decides whether an act goes on. -/
def whenOk {α β : Type} (check : Except HostError α) (next : α → Act (Except HostError β)) :
    Act (Except HostError β) :=
  match check with
  | .ok a => next a
  | .error e => pure (.error e)

/-- A check on a request that takes slots over: if it fails, what stands above `base` for them is
dropped. -/
def whenTaken {α β : Type} (base : Nat) (taken : List Slot) (check : Except HostError α)
    (next : α → Act (Except HostError β)) : Act (Except HostError β) :=
  match check with
  | .ok a => next a
  | .error e => do
    change (·.discardAll base taken)
    pure (.error e)

/-! ## Operations -/

def engineRun (on : Surroundings) (code : String) : Act (Except HostError String) :=
  whenOk (sentText code) fun bytes => do
    match ← runText on true (some bytes) with
    | some t => do
      freeText t.block
      pure (.ok (readText t.bytes))
    | none => pure (.error .unavailable)

/-- The newest entry moves into a global. -/
def declareTop (on : Surroundings) (name : String) (v : Value) : Act (Except HostError Unit) :=
  match sentText name with
  | .error e => do
    drop
    pure (.error e)
  | .ok bytes => do
    match ← handOver v with
    | .error e => pure (.error e)
    | .ok r => do
      let status ← declareGlobal on.scope true (some bytes) (some r)
      confirm .declare status

def arrayElement (view : View .array) (index : Nat) : Act (Except HostError Value) :=
  match view.handle? with
  | some id =>
    if index ≤ maxCount then do
      let given ← arrayGet (some id) index
      accept .arrayGet given
    else giveNull
  | none => giveNull

/-- The elements from an index on; the first refusal ends it. -/
def arrayElements (view : View .array) (index : Nat) :
    (count : Nat) → Act (Except HostError (List Value))
  | 0 => pure (.ok [])
  | count + 1 => do
    match ← arrayElement view index with
    | .error e => pure (.error e)
    | .ok v => do
      let rest ← arrayElements view (index + 1) count
      pure (rest.map (v :: ·))

def viewLength (view : View .array) : Act Nat :=
  match view.handle? with
  | some id => arrayLength (some id)
  | none => pure 0

def writeElement (view : View .array) (index : Nat) (v : Value) :
    Act (Except HostError Unit) :=
  whenOk view.target fun id =>
    if index ≤ maxCount then
      whenOk v.lend fun r => do
        let status ← arraySet (some id) index (some r)
        confirm .arraySet status
    else pure (.error (.rejected .farIndex))

def appendElement (view : View .array) (v : Value) : Act (Except HostError Unit) :=
  whenOk view.target fun id =>
    whenOk v.lend fun r => do
      let status ← arrayPush (some id) (some r)
      confirm .arrayPush status

def hasKey (view : View .object) (key : String) : Act Bool :=
  match view.handle?, sentText key with
  | some id, .ok bytes => objectHas (some id) (some bytes)
  | _, _ => pure false

def keyedValue (view : View .object) (key : String) : Act (Except HostError Value) :=
  match view.handle? with
  | some id =>
    whenOk (sentText key) fun bytes => do
      let given ← objectGet (some id) (some bytes)
      accept .objectGet given
  | none => giveNull

def writeKeyed (view : View .object) (key : String) (v : Value) : Act (Except HostError Unit) :=
  whenOk view.target fun id =>
    whenOk (sentText key) fun bytes =>
      whenOk v.lend fun r => do
        let status ← objectSet (some id) (some bytes) (some r)
        confirm .objectSet status

def ownKeys (view : View .object) : Act (List String) :=
  match view.handle? with
  | some id => do
    let t ← objectKeys (some id)
    let keys := Text.KeyList.read (readText t.bytes)
    freeText t.block
    pure keys
  | none => pure []

/-- Calls through a view. Null stands for no receiver. -/
def callView (on : Surroundings) (view : View .function) (args : List Value)
    (receiver : Value) : Act (Except HostError Value) :=
  whenOk view.target fun id =>
    whenOk (args.mapM Value.lend) fun argv =>
      if maxCount < argv.length then pure (.error (.rejected .argumentCount))
      else
        let lent := if receiver.isNull then .ok none else receiver.lend.map some
        whenOk lent fun this => do
          let given ← callFunction on.call true (some id) argv.length (some argv) this
          accept .functionCall given

/-- The method's own reference moves into the class, or is dropped. -/
def installMethod (base : Nat) (view : View .classDesc) (name : String)
    (method : View .function) : Act (Except HostError Unit) :=
  let taken := [method.value.slot]
  whenTaken base taken view.target fun id =>
    whenTaken base taken (sentText name) fun bytes =>
      whenTaken base taken method.target fun f => do
        change (·.secure base (.cell f))
        let status ← addMethod (some id) (some bytes)
        confirm .addMethod status

def settledResult (v : Value) : Act Value :=
  match v with
  | .handle .task id => do
    let given ← taskResult (some id)
    takeOver given.record
  | _ => do
    push .null
    pure .null

def settledTask (v : Value) : Act (Except HostError Value) :=
  whenOk v.lend fun r => do
    createTask (some r)
    let s ← top
    pure (.ok (.ofSlot .task s))

/-- How many closures the engine has. -/
def bindingCount : Act Nat :=
  surely ⟨.bindings, false⟩ do
    let w ← world
    pure w.engine.bindings.size

/-! ## Requests -/

def perform (on : Surroundings) (base : Nat) : (r : Request) → Act r.Reply
  | .clone v => do
    share v.slot
    pure v
  | .drop v => change (·.discard base v.slot)
  | .keep v => do
    change (·.secure base v.slot)
    change World.keep
  | .retrieve kind n => do
    change (·.retrieve n)
    let s ← top
    pure (.ofSlot kind s)
  | .view kind v => viewOf kind v
  | .run code => engineRun on code
  | .bindingCount => bindingCount
  | .createClass name =>
    whenOk (sentText name) fun bytes => do
      createClass true (some bytes)
      viewMade .classDesc
  | .createObject => do
    change (·.install (.object [] none))
    viewTop .object
  | .createArray => do
    change (·.install (.array #[]))
    viewTop .array
  | .createTask v => settledTask v
  | .taskResult v => settledResult v
  | .declareCopy name v => do
    share v.slot
    declareTop on name v
  | .declareMove name v => do
    change (·.secure base v.slot)
    declareTop on name v
  | .arrayLength view => viewLength view
  | .arrayGet view index => arrayElement view index
  | .arraySet view index v => writeElement view index v
  | .arrayPush view v => appendElement view v
  | .arrayToList view => do
    let n ← viewLength view
    arrayElements view 0 n
  | .objectHas view key => hasKey view key
  | .objectGet view key => keyedValue view key
  | .objectSet view key v => writeKeyed view key v
  | .objectKeys view => ownKeys view
  | .call view args receiver => callView on view args receiver
  | .addMethod view name method => installMethod base view name method

/-! ## Closures -/

/-- A new binding takes over the captured values; gives its place. -/
def bindClosure (base : Nat) (label : Option String) (captured : List Value)
    (body : HostFunction) : Act Nat := do
  change (·.secureAll base 0 (captured.map Value.slot))
  let w ← world
  surely ⟨.bindings, true⟩ (change (·.bind label (captured.map Value.kind) body))
  pure w.engine.bindings.size

/-- The name of a closure as it is sent; it must not be empty. -/
def sentName (name : String) : Except HostError Text.Bytes :=
  if name.isEmpty then .error .emptyName else sentText name

/-- The closure is bound as soon as its name can be sent, also if nothing more comes of it. What it
captured is dropped with it otherwise. -/
def registerClosure (on : Surroundings) (base : Nat) (name : String) (label : Option String)
    (captured : List Value) (body : HostFunction) : Act (Except HostError Unit) :=
  whenTaken base (captured.map Value.slot) (sentName name) fun bytes => do
    let i ← bindClosure base label captured body
    let status ← registerNative on.scope true (some bytes) (some (.closure (some i)))
    confirm .register status

def createClosure (base : Nat) (label : Option String) (captured : List Value)
    (body : HostFunction) : Act (View .function) := do
  let i ← bindClosure base label captured body
  createNative (some (.closure (some i)))
  viewTop .function

end Enclave.Act
