import Enclave.Host.Value
import Enclave.Host.Error

/-!
# Host code

What host code may do with an engine is a fixed list of requests, each with its own type of reply.
A closure is a tree of requests: it asks, sees the reply, and goes on, until it finishes, fails or
panics. Values in the tree are names; the references behind them belong to the call in progress.
-/
namespace Enclave

/-- A kind-checked view: a handle of that kind, or nothing. -/
structure View (kind : Kind) where
  handle? : Option CellId

namespace View

variable {kind : Kind}

def empty : View kind := ⟨none⟩

def value (view : View kind) : Value :=
  match view.handle? with
  | some id => .handle kind id
  | none => .null

/-- The handle for a write. -/
def target (view : View kind) : Except HostError CellId :=
  match view.handle? with
  | some id => .ok id
  | none => .error (.emptyView kind)

end View

inductive Request where
  | clone (v : Value)
  | drop (v : Value)
  /-- A value goes into the host's own memory, where it outlives the call. -/
  | keep (v : Value)
  /-- The value kept under `n` others comes back, under a kind of the host's choice. -/
  | retrieve (kind : Kind) (n : Nat)
  | view (kind : Kind) (v : Value)
  | run (code : String)
  | bindingCount
  | createClass (name : String)
  | createObject
  | createArray
  | createTask (v : Value)
  | taskResult (v : Value)
  | declareCopy (name : String) (v : Value)
  | declareMove (name : String) (v : Value)
  | arrayLength (view : View .array)
  | arrayGet (view : View .array) (index : Nat)
  | arraySet (view : View .array) (index : Nat) (v : Value)
  | arrayPush (view : View .array) (v : Value)
  | arrayToList (view : View .array)
  | objectHas (view : View .object) (key : String)
  | objectGet (view : View .object) (key : String)
  | objectSet (view : View .object) (key : String) (v : Value)
  | objectKeys (view : View .object)
  | call (view : View .function) (args : List Value) (receiver : Value)
  | addMethod (view : View .classDesc) (name : String) (method : View .function)

/-- The type of a request's reply. -/
def Request.Reply : Request → Type
  | clone _ => Value
  | drop _ => Unit
  | keep _ => Unit
  | retrieve _ _ => Value
  | view kind _ => Except HostError (View kind)
  | run _ => Except HostError String
  | bindingCount => Nat
  | createClass _ => Except HostError (View .classDesc)
  | createObject => View .object
  | createArray => View .array
  | createTask _ => Except HostError Value
  | taskResult _ => Value
  | declareCopy _ _ => Except HostError Unit
  | declareMove _ _ => Except HostError Unit
  | arrayLength _ => Nat
  | arrayGet _ _ => Except HostError Value
  | arraySet _ _ _ => Except HostError Unit
  | arrayPush _ _ => Except HostError Unit
  | arrayToList _ => Except HostError (List Value)
  | objectHas _ _ => Bool
  | objectGet _ _ => Except HostError Value
  | objectSet _ _ _ => Except HostError Unit
  | objectKeys _ => List String
  | call _ _ _ => Except HostError Value
  | addMethod _ _ _ => Except HostError Unit

/-- A closure's body. The two requests that hand over further closures stand on their own; each
gives the label under which the new closure's calls are noted, the values it captures, and its
body as a function of captured values, arguments and receiver. -/
inductive HostCode where
  | finish (result : Value)
  | fail (error : ClosureError)
  | panic (message : Option String)
  | request (r : Request) (next : r.Reply → HostCode)
  | register (name : String) (label : Option String) (captured : List Value)
      (body : List Value → List Value → Value → HostCode)
      (next : Except HostError Unit → HostCode)
  | createFunction (label : Option String) (captured : List Value)
      (body : List Value → List Value → Value → HostCode)
      (next : View .function → HostCode)

/-- A closure body, given its captured values, the arguments and the receiver. -/
abbrev HostFunction := List Value → List Value → Value → HostCode

/-- Host code that yields something to the code after it. -/
def Plan (α : Type) := (α → HostCode) → HostCode

namespace Plan

variable {α β : Type}

instance : Monad Plan where
  pure a := fun next => next a
  bind p f := fun next => p fun a => f a next

def fail (e : ClosureError) : Plan α :=
  fun _ => .fail e

def panic (message : Option String) : Plan α :=
  fun _ => .panic message

def ask (r : Request) : Plan r.Reply :=
  fun next => .request r next

/-- A host error in a reply becomes the closure's failure. -/
def must (reply : Except HostError α) : Plan α :=
  match reply with
  | .ok a => pure a
  | .error e => fail (.host e)

def register (name : String) (label : Option String) (captured : List Value)
    (body : HostFunction) : Plan (Except HostError Unit) :=
  fun next => .register name label captured body next

def createFunction (label : Option String) (captured : List Value) (body : HostFunction) :
    Plan (View .function) :=
  fun next => .createFunction label captured body next

/-- The whole body: the plan's value is the closure's result. -/
def code (p : Plan Value) : HostCode :=
  p .finish

end Plan
end Enclave
