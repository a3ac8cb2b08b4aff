import Enclave.Session.Direct

/-!
# Sessions

A session carries out its steps in order and then ends: first the registers are dropped, then the
engine with its globals and closures, and last the handles that raw functions kept. Its report says
what is left after that.
-/
namespace Enclave

namespace Act

/-- Carries out an action above the height `base` of the working stack. -/
def carryOut (on : Surroundings) (base : Nat) (marks : Marks) :
    Action → Act (Except HostError Effect)
  | .run code => whenDone (engineRun on code) fun s => answered (.text (withoutDetail s))
  | .register name c => registerCode on base name (some c.label) [c.kept] c.stock.body
  | .createFunction c => createCode base (some c.label) [c.kept] c.stock.body
  | .registerCode name label kept body => registerCode on base name label kept body
  | .createCode label kept body => createCode base label kept body
  | .createClass name =>
    whenDone (perform on base (.createClass name)) fun view => pure (.ok (.put view.value))
  | .createObject => do
    let view ← perform on base .createObject
    pure (.ok (.put view.value))
  | .createArray => do
    let view ← perform on base .createArray
    pure (.ok (.put view.value))
  | .createTask v => do
    let w ← world
    putting (settledTask (w.operandValue v))
  | .taskResult v => do
    let w ← world
    let result ← settledResult (w.operandValue v)
    pure (.ok (.put result))
  | .declareCopy name v => do
    let v ← cloneOperand v
    done (declareTop on name v)
  | .declareMove name register => do
    let v ← takeRegister register
    done (declareTop on name v)
  | .bindingCount => do
    let n ← bindingCount
    answered (.count n)
  | .settings => do
    let w ← world
    answered (.settings w.engine.config)
  | .copy v => do
    let v ← cloneOperand v
    pure (.ok (.put v))
  | .take register => do
    let v ← takeRegister register
    pure (.ok (.put v))
  | .drop register => do
    let w ← world
    change (·.removeRegister register)
    answered (.bool (w.registers.has register))
  | .detach register => detachRegister register
  | .fromHandle kind register claim => fromHandle kind register claim
  | .inspect v number bool => do
    let w ← world
    answered (.inspection ⟨w.operandValue v, number, bool⟩)
  | .equal a b => do
    let w ← world
    answered (.bool ((w.operandValue a).beq (w.operandValue b)))
  | .show v => do
    let w ← world
    answered (.value (w.showValue (w.operandValue v)))
  | .display register => displayRegister register
  | .references register => countReferences register
  | .stats whole brief => countStats marks whole brief
  | .view kind source => viewStep kind source
  | .arrayLength source =>
    whenDone (openView .array source) fun view => do
      let n ← viewLength view
      answered (.size n (n == 0))
  | .arrayGet source index =>
    whenDone (openView .array source) fun view => putting (arrayElement view index)
  | .arraySet source index v => do
    let w ← world
    whenDone (openView .array source) fun view =>
      whenDone (writeElement view index (w.operandValue v)) fun _ => sourceShown source
  | .arrayPush source v => do
    let w ← world
    whenDone (openView .array source) fun view =>
      whenDone (appendElement view (w.operandValue v)) fun _ => sourceShown source
  | .arrayToList source =>
    whenDone (openView .array source) fun view =>
      whenDone (listElements view) fun vs => do
        let w ← world
        answered (.values (vs.map w.showValue))
  | .objectHas source key =>
    whenDone (openView .object source) fun view => do
      let found ← hasKey view key
      answered (.bool found)
  | .objectGet source key =>
    whenDone (openView .object source) fun view => putting (keyedValue view key)
  | .objectSet source key v => do
    let w ← world
    whenDone (openView .object source) fun view =>
      whenDone (writeKeyed view key (w.operandValue v)) fun _ => sourceShown source
  | .objectKeys source =>
    whenDone (openView .object source) fun view => do
      let keys ← ownKeys view
      answered (.texts keys)
  | .call source args receiver => callStep on source args receiver
  | .detachFunction source => detachView source
  | .addMethod source name f => addMethodStep base source name f
  | .marshal v => do
    let w ← world
    whenDone (pure (w.operandValue v).lend) fun r => answered (.record r)
  | .consume register => consumeStep register
  | .handBack register => handBackStep register
  | .fromRecord draft _ => do
    let w ← world
    putting (copyRecord (w.draftRecord draft))
  | .takeOver draft => takeOverStep draft
  | .callClosure register passed => callClosureStep on register passed
  | .direct call => do
    let effect ← callDirect on call
    pure (.ok effect)

/-- An effect becomes an answer; a value is shown before it goes where it belongs. -/
def settleEffect (into : Option String) : Effect → Act Answer
  | .answer a => pure a
  | .put v => do
    let w ← world
    place into v
    pure (.value (w.showValue v))
  | .putRecord r v => do
    let w ← world
    place into v
    pure (.recordAndValue r (w.showValue v))
  | .putGiven ok r v => do
    let w ← world
    place into v
    pure (.given ok r (w.showValue v))

/-- What is put under the name of an answer that a detached register gives. -/
def answerOf (action : Action) (a : Answer) : Answer :=
  match action, a with
  | .detach _, .value _ => .bool true
  | _, a => a

/-- The closures called since a number of moments, in order. -/
def callsSince (noted : Nat) : Act (List CallReport) := fun m =>
  let fresh := (m.moments.take (m.moments.length - noted)).reverse
  let calls := fresh.filterMap fun moment =>
    match moment.event with
    | .called label args receiver =>
      label.map fun label =>
        ⟨some label, args.map moment.world.showValue, moment.world.showValue receiver⟩
    | _ => none
  .done calls m

def momentCount : Act Nat :=
  fun m => .done m.moments.length m

/-- The report of a step that is over, and the marks for the next one. -/
def reportStep (marks : Marks) (outcome : Except HostError Answer) : Act (Report × Marks) := do
  let calls ← callsSince marks.moments
  note .stepped
  let noted ← momentCount
  let w ← world
  pure (.mk outcome w.heap.tally.live w.ledger.live calls, { marks with moments := noted })

def marksAfter (action : Action) (marks : Marks) : Act Marks := do
  match action with
  | .stats _ _ => do
    let w ← world
    pure { marks with heap := w.heap.tally, text := w.textCounts }
  | _ => pure marks

def performAction (on : Surroundings) (marks : Marks) (action : Action) (into : Option String) :
    Act (Report × Marks) := do
  let base ← height
  let outcome ← match ← carryOut on base marks action with
    | .ok effect => do
      let a ← settleEffect into effect
      pure (.ok (answerOf action a))
    | .error e => pure (.error e)
  unwind base
  let marks ← marksAfter action marks
  reportStep marks outcome

/-- Holds a reference to a register's cell and accesses it while `x` runs. -/
def borrowing {α : Type} (register : String) (exclusive : Bool) (x : Act α) :
    Act (Except Answer α) := do
  let w ← world
  match w.registerHandle (some register) with
  | none => pure (.error .null)
  | some id => do
    share (.cell id)
    change World.hold
    let outcome ← accessing ⟨.payload id, exclusive⟩ (Except.ok <$> x)
      (pure (.error .refused))
    change World.letGo
    pure outcome

mutual

def performStep (on : Surroundings) (marks : Marks) : Step → Act (Report × Marks)
  | .act action into => performAction on marks action into
  | .borrowed register exclusive steps => do
    match ← borrowing register exclusive (performSteps on marks steps) with
    | .ok (reports, marks) => reportStep marks (.ok (.steps reports))
    | .error a => reportStep marks (.ok a)

def performSteps (on : Surroundings) (marks : Marks) : List Step → Act (List Report × Marks)
  | [] => pure ([], marks)
  | step :: rest => do
    let (report, marks) ← performStep on marks step
    let (reports, marks) ← performSteps on marks rest
    pure (report :: reports, marks)

end

/-- The end of an engine: calls stop, globals are dropped, and after them the closures. -/
def endEngine : Act Unit := do
  change fun w => { w with engine := { w.engine with running := false } }
  change fun w => w.dropScope w.engine.scope
  change World.dropBindings

def endSession : Act Unit := do
  change World.dropRegisters
  endEngine
  change World.dropKept

end Act

structure Session where
  config : Config
  steps : List Step

/-- What a session reports. -/
structure Session.Summary where
  reports : List Report
  cells : Nat
  blocks : Nat
  balanced : Bool

namespace Session

open Act in
def act (b : Budget) (steps : List Step) : Act Summary := do
  let w ← world
  let (reports, _) ← performSteps (b.surroundings w.engine.scope) .start steps
  note .closing
  endSession
  let w ← world
  pure ⟨reports, w.heap.tally.live, w.ledger.live, w.heap.tally.isBalanced⟩

/-- The outcome of a session in a world of its own, within a budget. -/
def runWithin (b : Budget) (s : Session) : Outcome Summary :=
  act b s.steps ⟨.initial s.config, []⟩

def run (s : Session) : Outcome Summary :=
  s.runWithin .standard

end Session

end Enclave
