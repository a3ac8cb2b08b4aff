import Enclave.Boundary.Entry
import Enclave.Host.Code
import Enclave.Number.Binary

/-!
# Stock closures

Closures that hosts put together from requests: each does one thing with its arguments, its
receiver and the value that it keeps. They serve as the host functions of the command line and of
sessions.
-/
namespace Enclave

inductive Stock where
  | null
  | kept
  | argument (i : Nat)
  | receiver
  | argumentCount
  | sum (default : Float)
  | truth (i : Nat) (default : Bool)
  | concat
  | kindName (i : Nat)
  | equal
  | addTwo
  | fail (message : String)
  | panic (message : Option String)
  /-- A constructor that stores its first argument under a key. -/
  | storing (key : String)
  /-- A constructor that stores the number of its first argument under a key. -/
  | storingNumber (key : String)
  /-- A method that counts the number under a key up by one. -/
  | counting (key : String)
  | objectGet
  | objectSet
  | objectHas
  | objectKeys
  | arrayGet
  | arraySet
  | arrayPush
  | makeArray
  | makeObject
  | makeTask
  | taskResult
  | call
  | run
  | declare
  | register
  | addMethod

namespace Stock

def expectedString : String := "expected a string"

def expectedNumber : String := "expected a number"

/-- The largest index that a host can ask for. -/
def maxIndex : Nat := Nat.pow 2 64 - 1

def indexOf (n : Float) : Nat :=
  Number.clampWhole maxIndex n

/-- A clone of an argument, or null if there are too few. -/
def cloneAt (args : List Value) (i : Nat) : Plan Value :=
  match args[i]? with
  | some v => Plan.ask (.clone v)
  | none => pure .null

def textAt (args : List Value) (i : Nat) : Plan String :=
  match args[i]?.bind Value.string? with
  | some s => pure s
  | none => Plan.fail (.argument i expectedString)

def numberAt (args : List Value) (i : Nat) : Float :=
  ((args[i]?).map (·.toNumber 0.0)).getD 0.0

/-- An argument that has to be a number. -/
def strictNumberAt (args : List Value) (i : Nat) : Plan Float :=
  match args[i]? with
  | some (.scalar (.number n)) => pure n
  | _ => Plan.fail (.argument i expectedNumber)

def viewOf (kind : Kind) (v : Value) : Plan (View kind) := do
  Plan.must (← Plan.ask (.view kind v))

/-- An argument as a view. -/
def viewAt (kind : Kind) (args : List Value) (i : Nat) : Plan (View kind) :=
  viewOf kind (args[i]?.getD .null)

def setKey (view : View .object) (key : String) (v : Value) : Plan Unit := do
  Plan.must (← Plan.ask (.objectSet view key v))

/-- Numbers add up from negative zero, which leaves each of them as it is. -/
def total (numbers : List Float) : Float :=
  numbers.foldl (· + ·) (-0.0)

/-- Arguments in pairs are the properties of an object. -/
def setPairs (view : View .object) : List Value → Plan Unit
  | [] => pure ()
  | key :: rest => do
    match key.string? with
    | none => Plan.fail (.argument 0 expectedString)
    | some key =>
      match rest with
      | [] => setKey view key .null
      | v :: more => do
        let v ← Plan.ask (.clone v)
        setKey view key v
        setPairs view more

def pushAll (view : View .array) : List Value → Plan Unit
  | [] => pure ()
  | v :: rest => do
    Plan.must (← Plan.ask (.arrayPush view v))
    pushAll view rest

/-- A closure that gives back its first argument. -/
def echo : HostFunction :=
  fun _ args _ => (cloneAt args 0).code

def plan (kept : Value) (args : List Value) (this : Value) : Stock → Plan Value
  | null => pure .null
  | .kept => Plan.ask (.clone kept)
  | argument i => cloneAt args i
  | receiver => Plan.ask (.clone this)
  | argumentCount => pure (.number (Number.ofWhole args.length))
  | sum default => pure (.number (total (args.map (·.toNumber default))))
  | truth i default => do
    let v ← cloneAt args i
    pure (.bool (v.toBool default))
  | concat => pure (.string (String.join (args.filterMap Value.string?)))
  | kindName i => do
    let v ← cloneAt args i
    pure (.string v.kind.name)
  | equal => do
    let a ← cloneAt args 0
    let b ← cloneAt args 1
    pure (.bool (a.beq b))
  | addTwo => do
    let a ← strictNumberAt args 0
    let b ← strictNumberAt args 1
    pure (.number (a + b))
  | fail message => Plan.fail (.custom message)
  | panic message => Plan.panic message
  | storing key => do
    let object ← viewOf .object this
    let v ← cloneAt args 0
    setKey object key v
    pure .null
  | storingNumber key => do
    let object ← viewOf .object this
    setKey object key (.number (numberAt args 0))
    pure .null
  | counting key => do
    let object ← viewOf .object this
    let current ← Plan.must (← Plan.ask (.objectGet object key))
    let next := Value.number (current.toNumber 0.0 + 1.0)
    setKey object key next
    pure next
  | objectGet => do
    let object ← viewAt .object args 0
    let key ← textAt args 1
    Plan.must (← Plan.ask (.objectGet object key))
  | objectSet => do
    let object ← viewAt .object args 0
    let key ← textAt args 1
    let v ← cloneAt args 2
    setKey object key v
    cloneAt args 0
  | objectHas => do
    let object ← viewAt .object args 0
    let key ← textAt args 1
    let found ← Plan.ask (.objectHas object key)
    pure (.bool found)
  | objectKeys => do
    let object ← viewAt .object args 0
    let keys ← Plan.ask (.objectKeys object)
    pure (.string (String.intercalate "|" keys))
  | arrayGet => do
    let array ← viewAt .array args 0
    Plan.must (← Plan.ask (.arrayGet array (indexOf (numberAt args 1))))
  | arraySet => do
    let array ← viewAt .array args 0
    let v ← cloneAt args 2
    Plan.must (← Plan.ask (.arraySet array (indexOf (numberAt args 1)) v))
    cloneAt args 0
  | arrayPush => do
    let array ← viewAt .array args 0
    pushAll array (args.drop 1)
    let n ← Plan.ask (.arrayLength array)
    pure (.number (Number.ofWhole n))
  | makeArray => do
    let array ← Plan.ask .createArray
    pushAll array args
    pure array.value
  | makeObject => do
    let object ← Plan.ask .createObject
    setPairs object args
    pure object.value
  | makeTask => do
    let v ← cloneAt args 0
    Plan.must (← Plan.ask (.createTask v))
  | taskResult => do
    let v ← cloneAt args 0
    Plan.ask (.taskResult v)
  | call => do
    let f ← viewAt .function args 0
    Plan.must (← Plan.ask (.call f (args.drop 1) this))
  | run => do
    let code ← textAt args 0
    let shown ← Plan.must (← Plan.ask (.run code))
    pure (.string (withoutDetail shown))
  | declare => do
    let name ← textAt args 0
    let v ← cloneAt args 1
    Plan.must (← Plan.ask (.declareCopy name v))
    pure .null
  | register => do
    let name ← textAt args 0
    Plan.must (← Plan.register name none [] echo)
    let n ← Plan.ask .bindingCount
    pure (.number (Number.ofWhole n))
  | addMethod => do
    let method ← viewAt .function args 2
    let target ← viewAt .classDesc args 0
    let name ← textAt args 1
    Plan.must (← Plan.ask (.addMethod target name method))
    cloneAt args 0

/-- The closure's body; the value it keeps is the only one it captures. -/
def body (stock : Stock) : HostFunction :=
  fun captured args this => (stock.plan (captured.headD .null) args this).code

end Stock
end Enclave
