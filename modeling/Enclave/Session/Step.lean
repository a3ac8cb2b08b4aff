import Enclave.Boundary.Record
import Enclave.Heap.Store
import Enclave.Host.Error
import Enclave.Host.Stock
import Enclave.Session.Shown

/-!
# Steps

A session is a host with named registers that works through a list of steps: operations on values
and views, on transport records, and direct calls of the entry points. Every step has an answer.
-/
namespace Enclave

/-- An operand of a step: a value made for it, or the value of a register, which is lent. -/
inductive Operand where
  | scalar (v : Scalar)
  | register (name : String)

/-- A record with the handle of a register in it. -/
structure Draft where
  code : Int
  number : Float
  boolean : Int
  text : Option Text.Bytes
  register : Option String

/-- What a call passes, before registers are looked up. -/
structure DraftCall where
  argc : Option Int
  argv : Option (List Draft)
  receiver : Option Draft

/-- A stock closure with the label of its calls and the operand whose value it keeps. -/
structure Closure where
  label : String
  stock : Stock
  kept : Operand

/-- Whether a reference moves or is taken anew. -/
inductive Claim where
  | adopt
  | retain
  deriving DecidableEq

/-- A view is made from a register, or is the empty one. -/
inductive ViewSource where
  | register (name : String)
  | empty

/-- A native function that does not come from the engine's own closures. -/
inductive RawFunction where
  | sum
  | codes
  | fixed (draft : Draft)
  | code (body : Int → Option (List Record) → Option Record → HostCode)
  /-- The closures' own entry, without a closure. -/
  | unbound

/-- Direct calls. A missing text, record or handle is passed as missing; `running` is whether the
runtime is passed, and `out` whether there is a place for the record that is given out. -/
inductive DirectCall where
  | version
  | allocateAndFree (size : Nat)
  | run (running : Bool) (code : Option Text.Bytes)
  | secondRuntime (name : Option Text.Bytes) (v : Option Draft)
  | createNative (f : Option RawFunction)
  | register (running : Bool) (name : Option Text.Bytes) (f : Option RawFunction)
  | declare (running : Bool) (name : Option Text.Bytes) (v : Option Draft)
  | createClass (running : Bool) (name : Option Text.Bytes)
  | addMethod (handle : Option String) (name : Option Text.Bytes) (f : Option String)
  | arrayLength (handle : Option String)
  | arrayGet (handle : Option String) (index : Int) (out : Bool)
  | arraySet (handle : Option String) (index : Int) (v : Option Draft)
  | arrayPush (handle : Option String) (v : Option Draft)
  | objectHas (handle : Option String) (key : Option Text.Bytes)
  | objectGet (handle : Option String) (key : Option Text.Bytes) (out : Bool)
  | objectSet (handle : Option String) (key : Option Text.Bytes) (v : Option Draft)
  | objectKeys (handle : Option String)
  | retainAndRelease (handle : Option String)
  | call (running : Bool) (handle : Option String) (passed : DraftCall) (out : Bool)
  | createTask (v : Option Draft)
  | taskResult (handle : Option String) (out : Bool)

/-- What a step does. -/
inductive Action where
  | run (code : String)
  | register (name : String) (closure : Closure)
  | createFunction (closure : Closure)
  /-- A closure with a body of the host's own. -/
  | registerCode (name : String) (label : Option String) (kept : List Operand)
      (body : HostFunction)
  | createCode (label : Option String) (kept : List Operand) (body : HostFunction)
  | createClass (name : String)
  | createObject
  | createArray
  | createTask (v : Operand)
  | taskResult (v : Operand)
  | declareCopy (name : String) (v : Operand)
  | declareMove (name : String) (register : String)
  | bindingCount
  | settings
  | copy (v : Operand)
  | take (register : String)
  | drop (register : String)
  | detach (register : String)
  | fromHandle (kind : Kind) (register : String) (claim : Claim)
  | inspect (v : Operand) (number : Float) (bool : Bool)
  | equal (a b : Operand)
  | show (v : Operand)
  | display (register : String)
  | references (register : String)
  | stats (whole brief : Bool)
  | view (kind : Kind) (source : ViewSource)
  | arrayLength (source : ViewSource)
  | arrayGet (source : ViewSource) (index : Nat)
  | arraySet (source : ViewSource) (index : Nat) (v : Operand)
  | arrayPush (source : ViewSource) (v : Operand)
  | arrayToList (source : ViewSource)
  | objectHas (source : ViewSource) (key : String)
  | objectGet (source : ViewSource) (key : String)
  | objectSet (source : ViewSource) (key : String) (v : Operand)
  | objectKeys (source : ViewSource)
  | call (source : ViewSource) (args : List Operand) (receiver : Operand)
  | detachFunction (source : ViewSource)
  | addMethod (source : ViewSource) (name : String) (f : ViewSource)
  | marshal (v : Operand)
  | consume (register : String)
  | handBack (register : String)
  | fromRecord (draft : Draft) (claim : Claim)
  | takeOver (draft : Draft)
  | callClosure (register : String) (passed : DraftCall)
  | direct (call : DirectCall)
  deriving Inhabited

/-- A step may name a register that takes its value over. The last form runs steps while a cell is
accessed. -/
inductive Step where
  | act (action : Action) (into : Option String)
  | borrowed (register : String) (exclusive : Bool) (steps : List Step)
  deriving Inhabited

/-! ## Answers -/

/-- Counts of text blocks. -/
structure TextCounts where
  allocated : Nat
  freed : Nat

structure Inspection where
  value : Value
  number : Float
  bool : Bool

/-- A call of a closure as it began. -/
structure CallReport where
  label : Option String
  args : List Shown
  receiver : Shown

mutual

inductive Answer where
  | null
  | bool (b : Bool)
  | count (n : Int)
  | text (s : String)
  | texts (texts : List String)
  | value (v : Shown)
  | values (vs : List Shown)
  | size (length : Nat) (isEmpty : Bool)
  | flags (a b : Bool)
  | settings (config : Config)
  | inspection (i : Inspection)
  | stats (heap : Tally) (brief : Bool) (text : TextCounts)
  | record (r : Record)
  | recordAndValue (r : Record) (v : Shown)
  | status (ok : Bool)
  | given (ok : Bool) (r : Record) (v : Shown)
  | refused
  | steps (reports : List Report)

/-- The outcome of a step, the cells and text blocks alive after it, and the calls during it. -/
inductive Report where
  | mk (outcome : Except HostError Answer) (cells blocks : Nat) (calls : List CallReport)

end
end Enclave
