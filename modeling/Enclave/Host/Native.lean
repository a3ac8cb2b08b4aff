import Enclave.Host.Perform

/-!
# Native functions

How the runtime's calls reach host code. A closure gets values of its own, made from the records of
the call, and answers with a record; whatever goes wrong on the way ends as marked text. Calls may
nest to a fixed depth.
-/
namespace Enclave

/-- The message of a panic that has none. -/
def unknownPanic : String := "unknown native panic"

/-- The code at which an absent receiver is shown to a foreign function. -/
def absentCode : Int := -1

/-- The records that a call passes. -/
structure Passed where
  argc : Int
  argv : Option (List Record)
  receiver : Option Record

def Passed.records (p : Passed) : List Record :=
  (p.argv.getD []).take p.argc.toNat

namespace Act

/-! ## Running host code -/

/-- Follows the tree of requests. The result's reference becomes the newest entry. -/
def runCode (on : Surroundings) (base : Nat) : HostCode → Act (Except String Value)
  | .finish v => do
    change (·.secure base v.slot)
    pure (.ok v)
  | .fail e => pure (.error e.message)
  | .panic message => pure (.error (message.getD unknownPanic))
  | .request r next => do
    let reply ← perform on base r
    note .resumed
    runCode on base (next reply)
  | .register name label captured body next => do
    let reply ← registerClosure on base name label captured body
    note .resumed
    runCode on base (next reply)
  | .createFunction label captured body next => do
    let reply ← createClosure base label captured body
    note .resumed
    runCode on base (next reply)

/-! ## Closures -/

/-- Copies argument records one after the other. -/
def copyArguments (index : Nat) : List Record → Act (Except ClosureError (List Value))
  | [] => pure (.ok [])
  | r :: rest => do
    match ← copyRecord r with
    | .error e => pure (.error (.argument index e.message))
    | .ok v => do
      let more ← copyArguments (index + 1) rest
      pure (more.map (v :: ·))

/-- The arguments of a call, as many as it counts. -/
def collectArguments (limit : Nat) (p : Passed) : Act (Except ClosureError (List Value)) :=
  let refuse (d : Defect) : Act (Except ClosureError (List Value)) :=
    pure (.error (.host (.malformed d)))
  if p.argc < 0 then refuse .negativeCount
  else if limit < p.argc.toNat then refuse .tooManyArguments
  else if p.argc = 0 then pure (.ok [])
  else if p.argv.isNone then refuse .missingArguments
  else copyArguments 0 p.records

def copyReceiver (p : Passed) : Act (Except ClosureError Value) :=
  match p.receiver with
  | none => pure (.ok .null)
  | some r => do
    match ← copyRecord r with
    | .ok v => pure (.ok v)
    | .error e => pure (.error (.host e))

/-- Runs a closure on its arguments and receiver. A failure is its message. -/
def runBinding (on : Surroundings) (base : Nat) (config : Config) (b : Binding) (p : Passed) :
    Act (Except String Value) := do
  match ← collectArguments config.maxArguments p with
  | .error e => pure (.error e.message)
  | .ok args => do
    match ← copyReceiver p with
    | .error e => pure (.error e.message)
    | .ok receiver => do
      note (.called b.label args receiver)
      runCode on base (b.body b.captured args receiver)

/-- Calls a closure. All that the call held is dropped but its result. -/
def callClosure (on : Surroundings) (place : Option Nat) (p : Passed) : Act Record := do
  let w ← world
  match if w.engine.running then place.bind (w.engine.bindings[·]?) else none with
  | none => do
    push .null
    pure .null
  | some b => do
    let base ← height
    match ← runBinding on base w.engine.config b p with
    | .ok v => do
      settleTo base
      handBack v
    | .error message => do
      unwind base
      let marked := w.engine.config.errorMarker ++ message
      push (.string marked)
      handBack (.string marked)

/-! ## Foreign functions -/

/-- The sum starts from negative zero, which leaves every number as it is. -/
def foreignSum (records : List Record) : Float :=
  records.foldl (fun sum r => sum + r.number) (-0.0)

def foreignCodes (p : Passed) : String :=
  let codes := (p.receiver.map (·.code)).getD absentCode :: p.records.map (·.code)
  String.intercalate "," ((p.argc :: codes).map toString)

/-- Gives a record what its receiver will own: a block for its text, a reference for its handle. -/
def endow (r : Record) : Act Record := do
  match r.kind?, r.text, r.handle with
  | some .string, some t, _ => do
    let w ← world
    change World.allocText
    push .null
    pure { r with text := some ⟨Text.untilZero t.bytes, some w.ledger.next⟩ }
  | some kind, _, some id => do
    if kind.isHandle then share (.cell id) else push .null
    pure r
  | _, _, _ => do
    push .null
    pure r

/-- Runs foreign code on the records as they are. It has nobody to tell of a failure, which gives
null. -/
def callForeignCode (on : Surroundings) (code : HostCode) : Act Record := do
  let base ← height
  match ← runCode on base code with
  | .ok v => do
    settleTo base
    handBack v
  | .error _ => do
    unwind base
    push .null
    pure .null

def callForeign (on : Surroundings) (f : Foreign) (p : Passed) : Act Record :=
  match f with
  | .sum => do
    push .null
    pure (.ofNumber (foreignSum p.records))
  | .codes => do
    let t ← allocText (foreignCodes p)
    push .null
    pure (.ofText t)
  | .fixed r => endow r
  | .code body => callForeignCode on (body p.argc p.argv p.receiver)

/-! ## Calls -/

/-- Notes that a call begins and that it ends. -/
def noted (callee : Option CellId) (f : NativeFunction) (p : Passed) (x : Act Record) :
    Act Record := do
  note (.entered callee f p.argc p.argv p.receiver)
  let r ← x
  note (.returned r)
  pure r

def callPassed (on : Surroundings) (f : NativeFunction) (p : Passed) : Act Record :=
  match f with
  | .closure place => callClosure on place p
  | .foreign f => callForeign on f p

/-- Calls with room for `depth` further calls inside one another, each of which gives the scripts
that it runs the same patience. -/
def callNative (patience : Nat) : (depth : Nat) → Caller
  | 0 => fun _ _ _ _ _ => stop .exhausted
  | depth + 1 => fun callee f argc argv receiver =>
    noted callee f ⟨argc, argv, receiver⟩ do
      let w ← world
      callPassed ⟨w.engine.scope, callNative patience depth, patience⟩ f ⟨argc, argv, receiver⟩

end Act

/-- How deep calls may nest, and how often one loop of a script may go round. -/
structure Budget where
  depth : Nat
  patience : Nat

namespace Budget

def standard : Budget := ⟨10000, Nat.pow 10 12⟩

/-- What a script of a scope runs in. -/
def surroundings (b : Budget) (scope : ScopeId) : Surroundings :=
  ⟨scope, Act.callNative b.patience b.depth, b.patience⟩

end Budget

/-- The surroundings of everything that a world's engine runs. -/
def World.surroundings (w : World) : Surroundings :=
  Budget.standard.surroundings w.engine.scope

end Enclave
