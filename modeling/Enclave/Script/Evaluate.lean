import Enclave.Boundary.Transfer
import Enclave.Number.Remainder
import Enclave.Script.Member
import Enclave.Script.Tree

/-!
# Evaluation

Evaluation of a script in one global scope. An expression leaves its value as the newest entry of
the working stack; a statement replaces the entry that holds the value of the last expression
statement. Native functions are reached through a caller, which stands for everything beyond the
boundary. Whatever form the evaluator does not know ends the run.
-/
namespace Enclave

/-- How a native function is called: by way of a function cell, if there is one, with an argument
count, an array of records, and perhaps a receiver. The record that comes back is accompanied by
its reference. -/
abbrev Caller :=
  Option CellId → NativeFunction → Int → Option (List Record) → Option Record → Act Record

/-- What a script runs in: a scope, a way to call native functions, and how often one loop may go
round. -/
structure Surroundings where
  scope : ScopeId
  call : Caller
  patience : Nat

namespace World

/-- The order of two slots: text by code points, anything else as numbers, if they have one. -/
def order? (l r : Slot) : Option Ordering :=
  match l, r with
  | .scalar (.string a), .scalar (.string b) => some (compare a b)
  | _, _ =>
    let x := l.toNumber
    let y := r.toNumber
    if x < y then some .lt else if x == y then some .eq else if y < x then some .gt else none

def isString : Slot → Bool
  | .scalar (.string _) => true
  | _ => false

/-- The value of an operator on two slots. -/
def binary (w : World) (op : BinaryOp) (l r : Slot) : Scalar :=
  match op with
  | .add =>
    if isString l || isString r then .string (w.display l ++ w.display r)
    else .number (l.toNumber + r.toNumber)
  | .subtract => .number (l.toNumber - r.toNumber)
  | .multiply => .number (l.toNumber * r.toNumber)
  | .divide => .number (l.toNumber / r.toNumber)
  | .remainder => .number (Number.remainder l.toNumber r.toNumber)
  | .equal => .bool (l.strictEq r)
  | .unequal => .bool (!l.strictEq r)
  | .less => .bool ((order? l r).any (·.isLT))
  | .lessEqual => .bool ((order? l r).any (·.isLE))
  | .greater => .bool ((order? l r).any (·.isGT))
  | .greaterEqual => .bool ((order? l r).any (·.isGE))
  | .power | .coalesce | .bitAnd | .bitOr | .bitXor | .shiftLeft | .shiftRight
  | .shiftRightUnsigned | .contains | .instanceOf => .number Number.notANumber

def typeName (w : World) (s : Slot) : String :=
  match w.kindOf s with
  | .number => "number"
  | .bool => "boolean"
  | .string => "string"
  | .function | .classDesc => "function"
  | .null | .array | .object | .task => "object"

end World

/-- A place that can be written: a global, or a member of a slot. -/
inductive Location where
  | global (name : String)
  | member (target key : Slot)

/-- How many entries of the working stack hold on to the place. -/
def Location.width : Location → Nat
  | global _ => 0
  | member _ _ => 2

namespace Act

def top : Act Slot := do
  let w ← world
  pure w.top

/-- The entry under `n` others. -/
def peek (n : Nat) : Act Slot := do
  let w ← world
  pure (w.stack.getD n .null)

/-- The newest `n` entries in the order in which they came. -/
def newest (n : Nat) : Act (List Slot) := do
  let w ← world
  pure (w.newest n)

/-! ## Globals -/

/-- A new reference to a global's value, if the name is bound. -/
def copyGlobal (scope : ScopeId) (name : String) : Act Bool :=
  surely ⟨.scope scope, false⟩ do
    let w ← world
    match w.global? scope name with
    | some s => do
      share s
      pure true
    | none => pure false

def loadGlobal (scope : ScopeId) (name : String) : Act Unit := do
  let found ← copyGlobal scope name
  if found then pure () else raise (.unbound name)

/-- The newest entry becomes the value of a global, new or old. -/
def declare (scope : ScopeId) (name : String) : Act Unit := do
  surely ⟨.scope scope, true⟩ (change (·.exchangeGlobal scope name))
  drop

/-- The newest entry becomes the value of a global that is bound already. -/
def storeGlobal (scope : ScopeId) (name : String) : Act Unit := do
  let found ← copyGlobal scope name
  if found then do
    drop
    declare scope name
  else raise (.unbound name)

/-! ## Places -/

def load (scope : ScopeId) : Location → Act Unit
  | .global name => loadGlobal scope name
  | .member target key => getMember target key

def store (scope : ScopeId) : Location → Act Unit
  | .global name => storeGlobal scope name
  | .member target key => setMember target key

/-! ## Calls -/

/-- The native function that a slot refers to. -/
def nativeOf (s : Slot) : Act (Option NativeFunction) :=
  match s with
  | .scalar _ => pure none
  | .cell id =>
    reading id
      (fun
        | .function f => pure (some f)
        | _ => pure none)
      (pure none)

/-- Lends the arguments and the receiver for one call; its result becomes the newest entry. -/
def invoke (call : Caller) (callee : Option CellId) (f : NativeFunction)
    (receiver : Option Slot) (args : List Slot) : Act Unit := do
  let w ← world
  let r ← call callee f args.length (some (args.map w.lend)) (receiver.map w.lend)
  adoptReturn r

def callSlot (call : Caller) (callee : Slot) (receiver : Option Slot) (args : List Slot) :
    Act Unit := do
  match ← nativeOf callee with
  | some f => invoke call callee.cell? f receiver args
  | none => do
    let w ← world
    raise (.notFunction (w.display callee))

/-- A new instance of a class becomes the newest entry. The constructor is the one that the class
has before the instance is made; what it returns is dropped. -/
def construct (call : Caller) (classSlot : Slot) (args : List Slot) : Act Unit := do
  let w ← world
  match classSlot with
  | .cell id =>
    if w.kindOf classSlot = .classDesc then do
      let found ← reading id
        (fun
          | .classDesc _ methods => do
            shareFound (methods.get? constructorName)
            pure (methods.has constructorName)
          | _ => do
            push .null
            pure false)
        (do
          push .null
          pure false)
      let constructor ← top
      change (·.allocInstance id)
      let made ← top
      if found then do
        callSlot call constructor (some made) args
        drop
      settle 1
    else raise (.notConstructor (w.display classSlot))
  | .scalar _ => raise (.notConstructor (w.display classSlot))

/-- The object under construction: the keys so far and one entry for each, with one more entry on
top that belongs to `key`. -/
def addProperty (keys : List String) (key : String) : Act (List String) :=
  match keys.findIdx? (· == key) with
  | some i => do
    change (·.replaceBelow (keys.length - 1 - i))
    pure keys
  | none => pure (keys ++ [key])

def fromComputed (key : PropertyKey) : Option String :=
  match key with
  | .text s => some s
  | .number n => some (Number.text n)
  | .other => none

/-- The operator of a compound assignment. -/
def compoundOp? : AssignOp → Option BinaryOp
  | .add => some .add
  | .subtract => some .subtract
  | .multiply => some .multiply
  | _ => none

/-- With the new right-hand side on top of a place's entries, performs the assignment and leaves
its value. -/
def assignTo (scope : ScopeId) (place : Location) (op : AssignOp) : Act Unit := do
  match op with
  | .set => do
    let right ← top
    share right
    store scope place
    settle place.width
  | .add | .subtract | .multiply => do
    let right ← top
    load scope place
    let left ← top
    let w ← world
    let v := w.binary ((compoundOp? op).getD .add) left right
    drop
    push v
    push v
    store scope place
    settle (place.width + 1)
  | .other => raise (.unsupported .assignmentOperator)

/-- Counts a place up or down and leaves the new or the old number. -/
def updateAt (scope : ScopeId) (place : Location) (grows returnsNew : Bool) : Act Unit := do
  load scope place
  let current ← top
  let old := current.toNumber
  let new := if grows then old + 1.0 else old - 1.0
  drop
  push (.number new)
  store scope place
  push (.number (if returnsNew then new else old))
  settle place.width

def applyUnary (op : UnaryOp) : Act Unit := do
  let arg ← top
  let w ← world
  let answer (v : Scalar) : Act Unit := do
    push v
    settle 1
  match op with
  | .minus => answer (.number (-arg.toNumber))
  | .plus => answer (.number arg.toNumber)
  | .negate => answer (.bool (!arg.truthy))
  | .typeOf => answer (.string (w.typeName arg))
  | .invert | .discard | .delete => raise (.unsupported .unaryOperator)

def applyBinary (op : BinaryOp) : Act Unit := do
  let l ← peek 1
  let r ← top
  let w ← world
  push (w.binary op l r)
  settle 2

end Act

open Act

mutual

def Expr.eval (on : Surroundings) : Expr → Act Unit
  | .null => push .null
  | .bool b => push (.bool b)
  | .number n => push (.number n)
  | .string s => push (.string s)
  | .name x => loadGlobal on.scope x
  | .paren e => e.eval on
  | .array elements => do
    elements.evalElements on
    change (·.allocArray elements.length)
  | .object properties => do
    let keys ← properties.eval on []
    change (·.allocObject keys)
  | .member target key => do
    target.eval on
    key.eval on
    let t ← peek 1
    let k ← top
    getMember t k
    settle 2
  | .call (.member target key) args => do
    args.evalArgs on
    let given ← newest args.length
    target.eval on
    key.eval on
    let t ← peek 1
    let k ← top
    getMember t k
    let method ← top
    match ← nativeOf method with
    | some _ => callSlot on.call method (some t) given
    | none => do
      let w ← world
      raise (.notFunction (w.propertyName k))
    settle (args.length + 3)
  | .call callee args => do
    args.evalArgs on
    let given ← newest args.length
    callee.eval on
    let f ← top
    callSlot on.call f none given
    settle (args.length + 1)
  | .specialCall => raise (.unsupported .specialCall)
  | .construct callee args => do
    callee.eval on
    let c ← top
    args.evalArgs on
    let given ← newest args.length
    construct on.call c given
    settle (args.length + 1)
  | .assign target op value => do
    let place ← target.eval on
    value.eval on
    assignTo on.scope place op
  | .update grows returnsNew arg => do
    let place ← arg.evalPlace on
    updateAt on.scope place grows returnsNew
  | .unary op arg => do
    arg.eval on
    applyUnary op
  | .binary op left right => do
    left.eval on
    right.eval on
    applyBinary op
  | .logical op left right => do
    left.eval on
    let l ← top
    if l.truthy == (op == .both) then do
      right.eval on
      settle 1
    else pure ()
  | .other => raise (.unsupported .expression)

/-- Array elements in order; a hole is null. -/
def Items.evalElements (on : Surroundings) : Items → Act Unit
  | .nil => pure ()
  | .item e rest => do
    e.eval on
    rest.evalElements on
  | .hole rest => do
    push .null
    rest.evalElements on
  | .spread _ => raise (.unsupported .spreadElement)

/-- Call arguments in order. -/
def Items.evalArgs (on : Surroundings) : Items → Act Unit
  | .nil => pure ()
  | .item e rest => do
    e.eval on
    rest.evalArgs on
  | .hole rest => do
    push .null
    rest.evalArgs on
  | .spread _ => raise (.unsupported .spreadArgument)

/-- One entry for each distinct key, in the order of first appearance. -/
def Properties.eval (on : Surroundings) : Properties → List String → Act (List String)
  | .nil, keys => pure keys
  | .keyed key value rest, keys =>
    match fromComputed key with
    | none => raise (.unsupported .computedKey)
    | some k => do
      value.eval on
      let keys ← addProperty keys k
      rest.eval on keys
  | .shorthand name rest, keys => do
    loadGlobal on.scope name
    let keys ← addProperty keys name
    rest.eval on keys
  | .spread _, _ => raise (.unsupported .objectSpread)
  | .other _, _ => raise (.unsupported .objectProperty)

def MemberKey.eval (on : Surroundings) : MemberKey → Act Unit
  | .name s => push (.string s)
  | .computed e => e.eval on
  | .hidden => raise (.unsupported .privateName)

/-- The place that an assignment writes; its entries stay on the stack. -/
def Target.eval (on : Surroundings) : Target → Act Location
  | .name x => pure (.global x)
  | .member target key => do
    target.eval on
    key.eval on
    let t ← peek 1
    let k ← top
    pure (.member t k)
  | .other => raise (.unsupported .assignmentTarget)

/-- The place that an update writes; parentheses around it do not matter. -/
def Expr.evalPlace (on : Surroundings) : Expr → Act Location
  | .name x => pure (.global x)
  | .member target key => do
    target.eval on
    key.eval on
    let t ← peek 1
    let k ← top
    pure (.member t k)
  | .paren e => e.evalPlace on
  | _ => raise (.unsupported .updateTarget)

end

def Declarators.exec (on : Surroundings) : Declarators → Act Unit
  | .nil => pure ()
  | .name x init rest => do
    match init with
    | some e => e.eval on
    | none => push .null
    declare on.scope x
    rest.exec on
  | .pattern _ => raise (.unsupported .destructuring)

/-- Evaluates a test and drops its value. -/
def Expr.test (on : Surroundings) (e : Expr) : Act Bool := do
  e.eval on
  let s ← top
  drop
  pure s.truthy

mutual

/-- The newest entry is the value of the last expression statement so far. -/
def Statement.exec (on : Surroundings) : Statement → Act Unit
  | .expression e => do
    e.eval on
    settle 1
  | .declare declarators => declarators.exec on
  | .block body => body.exec on
  | .branch test yes => do
    if ← test.test on then yes.exec on else pure ()
  | .choice test yes no => do
    if ← test.test on then yes.exec on else no.exec on
  | .loop test body => repeatWhile (test.test on) (body.exec on) on.patience
  | .empty => pure ()
  | .other => raise (.unsupported .statement)

def Statements.exec (on : Surroundings) : Statements → Act Unit
  | .nil => pure ()
  | .cons s rest => do
    s.exec on
    rest.exec on

end

end Enclave
