import Enclave.Boundary.Transfer
import Enclave.Script.Run
import Enclave.Text.KeyList

/-!
# Entry points

The operations through which any host reaches the runtime. Handles, text and records may be
missing, a handle may be of any kind, and whatever is wrong is answered by a status. Records that
are lent leave their sender's references alone; a record or handle that is handed over is
accompanied by the newest entry, and so is a record that is given out.
-/
namespace Enclave

/-- Text that a failed run's message begins with. -/
def faultMarker : String := "Error: "

/-- The text of a run, cut to its first words where it goes into why a script is malformed. -/
def withoutDetail (shown : String) : String :=
  let bare := faultMarker ++ Fault.malformed.message
  if shown.startsWith (bare ++ ": ") then bare else shown

/-- Counts and indices are words of 32 bits with a sign. -/
def maxCount : Nat := Nat.pow 2 31 - 1

def interfaceVersion : Nat := 1

/-- The answer of an entry that gives out a record. -/
structure Given where
  status : Bool
  record : Record

/-- Text as the runtime reads it. -/
def readText (bytes : Text.Bytes) : String :=
  Text.decodeLossy (Text.untilZero bytes)

/-- The cell behind a handle, if it is of the kind. -/
def World.cellOf? (w : World) (kind : Kind) (handle : Option CellId) : Option CellId :=
  handle.filter fun id => w.heap.kind? id == some kind

namespace Payload

def element? (index : Int) : Payload → Option Slot
  | .array elements => if 0 ≤ index then elements[index.toNat]? else none
  | _ => none

def property? (key : String) : Payload → Option Slot
  | .object properties _ => properties.get? key
  | _ => none

def keys : Payload → List String
  | .object properties _ => properties.keys
  | _ => []

def result? : Payload → Option Slot
  | .task result => some result
  | _ => none

end Payload

namespace Act

/-! ## Giving out -/

def giveNothing (status : Bool) : Act Given := do
  push .null
  pure ⟨status, .null⟩

/-- The newest entry is given out and then dropped. -/
def giveTop : Act Given := do
  let s ← top
  let r ← giveOut s
  settle 1
  pure ⟨true, r⟩

/-- Looks into a cell of one kind and gives out what is found there, or null. -/
def giveFrom (kind : Kind) (handle : Option CellId) (find : Payload → Option Slot) :
    Act Given := do
  let w ← world
  match w.cellOf? kind handle with
  | some id => do
    let seen ← reading id
      (fun p => do
        shareFound (find p)
        pure true)
      (pure false)
    if seen then giveTop else giveNothing false
  | none => giveNothing false

/-- Lends a record to a cell of one kind: a reference of its own is exchanged for what the cell
held at that place. -/
def storeInto (kind : Kind) (handle : Option CellId) (v : Option Record)
    (exchange : Payload → Slot → Option (Payload × Slot)) : Act Bool := do
  let w ← world
  match w.cellOf? kind handle, v with
  | some id, some r => do
    borrow r
    let s ← top
    let stored ← writing id
      (fun p =>
        match exchange p s with
        | some _ => do
          change (·.exchangePayload id exchange)
          pure true
        | none => pure false)
      (pure false)
    drop
    pure stored
  | _, _ => pure false

/-! ## Scripts and globals -/

/-- The display text of a script's value, or the message of its fault, in a block. -/
def runText (on : Surroundings) (running : Bool) (code : Option Text.Bytes) :
    Act (Option TextRef) := do
  match code with
  | some bytes =>
    if running then do
      let outcome ← runScript on (readText bytes)
      match outcome with
      | .ok () => do
        let s ← top
        let w ← world
        let t ← allocText (w.display s)
        drop
        pure (some t)
      | .error fault => some <$> allocText (faultMarker ++ fault.message)
    else pure none
  | none => pure none

/-- A function cell for what a host handed over, or null. -/
def createNative (f : Option NativeFunction) : Act Unit :=
  match f with
  | some f => change (·.allocFunction f)
  | none => push .null

def registerNative (scope : ScopeId) (running : Bool) (name : Option Text.Bytes)
    (f : Option NativeFunction) : Act Bool := do
  match name, f with
  | some name, some f =>
    if running then do
      createNative (some f)
      declare scope (readText name)
      pure true
    else pure false
  | _, _ => pure false

/-- The record is handed over, also if nothing comes of it. -/
def declareGlobal (scope : ScopeId) (running : Bool) (name : Option Text.Bytes)
    (v : Option Record) : Act Bool := do
  match v with
  | some r => do
    consume r
    match name with
    | some name =>
      if running then do
        declare scope (readText name)
        pure true
      else do
        drop
        pure false
    | none => do
      drop
      pure false
  | none => do
    drop
    pure false

/-! ## Classes -/

/-- A new class, or null. -/
def createClass (running : Bool) (name : Option Text.Bytes) : Act Unit :=
  match name with
  | some name => if running then change (·.allocClass (readText name)) else push .null
  | none => push .null

/-- The newest entry is handed over as a method, also if nothing comes of it. -/
def addMethod (handle : Option CellId) (name : Option Text.Bytes) : Act Bool := do
  let f ← top
  let w ← world
  match w.cellOf? .function f.cell?, name, w.cellOf? .classDesc handle with
  | some _, some name, some id => do
    let stored ← writing id
      (fun _ => do
        change (·.exchangePayload id (Payload.putMethod (readText name)))
        pure true)
      (pure false)
    drop
    pure stored
  | _, _, _ => do
    drop
    pure false

/-! ## Arrays -/

def arrayLength (handle : Option CellId) : Act Nat := do
  let w ← world
  match w.cellOf? .array handle with
  | some id =>
    reading id
      (fun
        | .array elements => pure (min elements.size maxCount)
        | _ => pure 0)
      (pure 0)
  | none => pure 0

def arrayGet (handle : Option CellId) (index : Int) : Act Given :=
  giveFrom .array handle (Payload.element? index)

def arraySet (handle : Option CellId) (index : Int) (v : Option Record) : Act Bool :=
  if index < 0 then pure false
  else storeInto .array handle v (Payload.putElement index.toNat)

def arrayPush (handle : Option CellId) (v : Option Record) : Act Bool :=
  storeInto .array handle v Payload.pushElement

/-! ## Objects -/

def objectHas (handle : Option CellId) (key : Option Text.Bytes) : Act Bool := do
  let w ← world
  match w.cellOf? .object handle, key with
  | some id, some key =>
    reading id (fun p => pure (Payload.property? (readText key) p).isSome) (pure false)
  | _, _ => pure false

def objectGet (handle : Option CellId) (key : Option Text.Bytes) : Act Given :=
  match key with
  | some key => giveFrom .object handle (Payload.property? (readText key))
  | none => giveNothing false

def objectSet (handle : Option CellId) (key : Option Text.Bytes) (v : Option Record) :
    Act Bool :=
  match key with
  | some key => storeInto .object handle v (Payload.putProperty (readText key))
  | none => pure false

/-- The own keys as a key list in a block. -/
def objectKeys (handle : Option CellId) : Act TextRef := do
  let w ← world
  let keys ← match w.cellOf? .object handle with
    | some id => reading id (fun p => pure (Payload.keys p)) (pure [])
    | none => pure []
  allocText (Text.KeyList.write keys)

/-! ## Calls and tasks -/

/-- Borrows records one after the other; gives the slots that they became. -/
def borrowAll : List Record → Act (List Slot)
  | [] => pure []
  | r :: rest => do
    borrow r
    let s ← top
    let more ← borrowAll rest
    pure (s :: more)

/-- Calls a function cell. The result is given out, and all else that the call held is dropped. -/
def callFunction (call : Caller) (running : Bool) (handle : Option CellId) (argc : Int)
    (argv : Option (List Record)) (receiver : Option Record) : Act Given := do
  let w ← world
  match w.cellOf? .function handle with
  | some id =>
    if !running || argc < 0 || (argc != 0 && argv.isNone) then giveNothing false
    else do
      let base ← height
      let args ← borrowAll ((argv.getD []).take argc.toNat)
      let receiver ← borrowAll receiver.toList
      share (.cell id)
      let callee ← top
      let outcome ← recover (callSlot call callee receiver.head? args)
      match outcome with
      | .ok () => do
        let given ← giveTop
        settleTo base
        pure given
      | .error _ => do
        unwind base
        giveNothing false
  | none => giveNothing false

/-- A settled task that holds a copy of the record's slot, or null. -/
def createTask (v : Option Record) : Act Unit :=
  match v with
  | some r => do
    borrow r
    change World.allocTask
  | none => push .null

def taskResult (handle : Option CellId) : Act Given :=
  giveFrom .task handle Payload.result?

end Act
end Enclave
