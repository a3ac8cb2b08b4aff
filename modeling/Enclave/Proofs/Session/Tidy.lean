import Enclave.Proofs.Host.Tidy
import Enclave.Proofs.Session.Run

/-! # Sessions are tidy

Every action of a session is tidy, direct calls included: what an entry point gives out is taken over or,
without a place for it, lost. Steps during which the host accesses a cell are not; all they have in
common with the others is that they go on a trail.
-/
namespace Enclave

open Act

/-- Does a step leave all cells alone while it is not at work on them itself? -/
def Step.isPlain : Step → Bool
  | .act _ _ => true
  | .borrowed _ _ _ => false

namespace Act

variable {α β : Type} {rules : Rules} {held : List Guard} {due : List Nat} {on : Surroundings}

theorem tidy_answered (a : Answer) : Neat rules held (answered a) :=
  .pure _ rfl

theorem Neat.whenDone {x : Act (Except HostError α)} {next : α → Act (Except HostError β)}
    (hx : Neat rules held x) (hn : ∀ a, Neat rules held (next a)) :
    Neat rules held (whenDone x next) := by
  refine hx.bind fun outcome => ?_
  cases outcome with
  | ok a => exact hn a
  | error e => exact .pure _ rfl

theorem Neat.putting {x : Act (Except HostError Value)} (hx : Neat rules held x) :
    Neat rules held (putting x) :=
  hx.whenDone fun _ => .pure _ rfl

theorem Neat.done {x : Act (Except HostError Unit)} (hx : Neat rules held x) :
    Neat rules held (done x) :=
  hx.whenDone fun _ => tidy_answered _

/-! ## Registers and values -/

theorem tidy_takeRegister (name : String) : Neat rules held (takeRegister name) := by
  refine .look (fun _ => (tidy_push _).bind fun _ => ?_) fun _ _ => rfl
  split
  · exact (Tidy.change (.exchangeRegister name .null)).bind fun _ => .pure _ rfl
  · exact Neat.bind (.pure () rfl) fun _ => .pure _ rfl

theorem tidy_place (into : Option String) (v : Value) : Neat rules held (place into v) := by
  unfold place
  cases into with
  | some name => exact (Tidy.change (.exchangeRegister name _)).bind fun _ => tidy_drop
  | none => exact tidy_drop

theorem tidy_openView (kind : Kind) (source : ViewSource) :
    Neat rules held (openView kind source) := by
  cases source with
  | register name => exact .look (fun _ => tidy_viewOf kind _) fun _ _ => rfl
  | empty => exact .pure _ rfl

theorem tidy_sourceShown (source : ViewSource) : Neat rules [] (sourceShown source) := by
  cases source with
  | register name =>
    refine .look (fun w => tidy_answered _) fun w hw => ?_
    rw [World.showValue_unlocked hw]
    rfl
  | empty => exact tidy_answered _

theorem tidy_cloneOperand (o : Operand) : Neat rules held (cloneOperand o) :=
  .look (fun _ => (tidy_share _).bind fun _ => .pure _ rfl) fun _ _ => rfl

theorem tidy_cloneAll (operands : List Operand) : Neat rules held (cloneAll operands) := by
  induction operands with
  | nil =>
    rw [cloneAll]
    exact .pure _ rfl
  | cons o rest ih =>
    rw [cloneAll]
    exact (tidy_cloneOperand o).bind fun v => ih.bind fun more => .pure _ rfl

theorem tidy_detachRegister (name : String) : Neat rules held (detachRegister name) := by
  refine .look (fun w => ?_) fun _ _ => rfl
  split
  · exact tidy_answered _
  · split
    · exact (tidy_takeRegister name).bind fun v => .pure _ rfl
    · exact tidy_answered _

theorem tidy_fromHandle (kind : Kind) (name : String) (claim : Claim) :
    Neat rules held (fromHandle kind name claim) := by
  have hnull : Neat rules held
      (push .null >>= fun _ => pure (Except.ok (Effect.put .null)) : Act (Except HostError Effect)) :=
    (tidy_push _).bind fun _ => .pure _ rfl
  refine .look (fun w => ?_) fun _ _ => rfl
  split
  · split
    · cases claim with
      | retain => exact (tidy_share _).bind fun _ => .pure _ rfl
      | adopt => exact (tidy_takeRegister name).bind fun _ => .pure _ rfl
    · exact hnull
  · exact hnull

theorem tidy_displayRegister (name : String) : Neat rules [] (displayRegister name) := by
  refine .look (fun w => ?_) fun w hw => ?_
  · split <;> exact tidy_answered _
  · simp only [World.display_unlocked hw]
    rfl

theorem tidy_countReferences (name : String) : Neat rules held (countReferences name) := by
  refine .look (fun w => ?_) fun _ _ => rfl
  split <;> exact tidy_answered _

theorem tidy_countStats (marks : Marks) (whole brief : Bool) :
    Neat rules held (countStats marks whole brief) :=
  .look (fun _ => tidy_answered _) fun _ _ => rfl

/-! ## Closures, views and records -/

theorem tidy_registerCode (base : Nat) (name : String) (label : Option String)
    (kept : List Operand) (body : HostFunction) :
    Neat rules [] (registerCode on base name label kept body) :=
  (tidy_cloneAll kept).bind fun captured =>
    (tidy_registerClosure base name label captured body).done

theorem tidy_createCode (base : Nat) (label : Option String) (kept : List Operand)
    (body : HostFunction) : Neat rules [] (createCode base label kept body) :=
  (tidy_cloneAll kept).bind fun captured =>
    (tidy_createClosure base label captured body).bind fun _ => .pure _ rfl

theorem tidy_callStep (hc : on.call.Conducts rules) (source : ViewSource) (args : List Operand)
    (receiver : Operand) : Neat rules [] (callStep on source args receiver) := by
  refine (tidy_cloneAll args).bind fun given => .look (fun w => ?_) fun _ _ => rfl
  exact (tidy_openView .function source).whenDone fun view =>
    (tidy_callView hc view given _).putting

theorem tidy_takeFunction (source : ViewSource) : Neat rules held (takeFunction source) := by
  cases source with
  | register name => exact (tidy_takeRegister name).bind fun v => tidy_viewTaken .function v
  | empty => exact .pure _ rfl

theorem tidy_addMethodStep (base : Nat) (source : ViewSource) (name : String) (f : ViewSource) :
    Neat rules [] (addMethodStep base source name f) :=
  (tidy_openView .classDesc source).whenDone fun target =>
    (tidy_takeFunction f).whenDone fun method =>
      (tidy_installMethod base target name method).whenDone fun _ => tidy_sourceShown source

/-- A record that was lent comes without a block. -/
theorem textBlock?_of_lend {v : Value} {r : Record} (h : v.lend = .ok r) : r.textBlock? = none := by
  cases v with
  | scalar s =>
    cases s with
    | string s =>
      simp only [Value.lend] at h
      cases hs : sentText s with
      | error e =>
        rw [hs] at h
        cases h
      | ok bytes =>
        rw [hs] at h
        cases h
        rw [Record.textBlock?_ofText]
    | null | number | bool =>
      cases h
      rfl
  | handle kind id =>
    cases h
    exact Record.textBlock?_of_text rfl

/-- The block of a record that was handed over. -/
def handedDue : Except HostError Record → List Nat
  | .ok r => r.textBlock?.toList
  | .error _ => []

theorem tidy_handOverDue (v : Value) : Tidy rules held [] (handOver v) handedDue := by
  unfold handOver
  split
  · rename_i r hr
    refine (tidy_clearScalar v).bind fun _ => .pure _ ?_
    rw [handedDue, textBlock?_of_lend hr, Option.toList_none]
  · exact tidy_drop.bind fun _ => .pure _ rfl

theorem tidy_consumeStep (name : String) : Neat rules held (consumeStep name) := by
  refine (tidy_takeRegister name).bind fun v => (tidy_handOverDue v).bind fun handed => ?_
  cases handed with
  | ok r => exact (tidy_takeOver r).bind fun _ => .pure _ rfl
  | error e => exact .pure _ rfl

theorem tidy_handBackStep (name : String) : Neat rules held (handBackStep name) :=
  (tidy_takeRegister name).bind fun v => (tidy_handBack v).bind fun r =>
    (tidy_takeOver r).bind fun _ => .pure _ rfl

theorem tidy_takeOverStep (d : Draft) : Neat rules held (takeOverStep d) :=
  .look (fun _ => (tidy_endow _).bind fun r => (tidy_takeOver r).bind fun _ => .pure _ rfl)
    fun _ _ => rfl

theorem tidy_closurePlace (name : String) : Neat rules held (closurePlace name) := by
  refine .look (fun w => ?_) fun _ _ => rfl
  split <;> exact .pure _ rfl

theorem tidy_callClosureStep (hc : on.call.Conducts rules) (name : String) (d : DraftCall) :
    Neat rules [] (callClosureStep on name d) := by
  refine .look (fun w => (tidy_closurePlace name).bind fun i => ?_) fun _ _ => rfl
  exact (hc.apart _ _ _ _).bind fun r => (tidy_takeOver r).bind fun _ => .pure _ rfl

/-! ## Direct calls -/

theorem tidy_answerStatus (ok : Bool) : Neat rules held (answerStatus ok) :=
  .pure _ rfl

/-- Without a place for what was given out its block is lost. -/
theorem tidy_answerGiven {out : Bool} (ha : rules.accounted → out = true) (given : Given) :
    Tidy rules held given.due (answerGiven out given) fun _ => [] := by
  cases out with
  | true => exact (tidy_takeOver _).bind fun _ => .pure _ rfl
  | false =>
    have hlost : ¬ rules.accounted := fun h => Bool.noConfusion (ha h)
    exact (Tidy.change .forget).bind fun _ => .lose hlost _

theorem tidy_putTop (kind : Kind) : Neat rules held (putTop kind) :=
  tidy_top fun _ => .pure _ rfl

/-- A raw function runs no closure of the engine. -/
theorem tidy_rawNative {k : Option NativeFunction → Act β} {owes : β → List Nat}
    (hk : ∀ f, (∀ i, f ≠ some (.closure (some i))) → Tidy rules held [] (k f) owes)
    (f : Option RawFunction) : Tidy rules held [] (rawNative f >>= k) owes := by
  cases f with
  | none => exact hk none nofun
  | some f =>
    cases f with
    | sum | codes | code body | unbound => exact hk _ nofun
    | fixed d =>
      have hfixed : ∀ w : World, Tidy rules held [] (k (some (.foreign (.fixed (w.draftRecord d))))) owes :=
        fun w => hk _ nofun
      unfold rawNative
      dsimp only
      rw [bind_bind]
      refine .look (fun w => ?_) fun _ _ => rfl
      cases w.registerHandle d.register with
      | some id => exact (tidy_share _).bind fun _ => (Tidy.change .keep).bind fun _ => hfixed w
      | none => exact hfixed w

theorem tidy_detachInto (register : Option String) :
    Neat rules held (detachInto register) := by
  refine .look (fun w => ?_) fun _ _ => rfl
  split
  · exact (tidy_takeRegister _).bind fun _ => .pure _ rfl
  · exact tidy_push _

theorem tidy_handOverDraft (v : Option Draft) : Neat rules held (handOverDraft v) := by
  refine .look (fun w => ?_) fun _ _ => rfl
  cases v with
  | none => exact (tidy_push _).bind fun _ => .pure _ rfl
  | some d => exact (tidy_detachInto _).bind fun _ => .pure _ rfl

theorem tidy_readAndFree (t : TextRef) :
    Tidy rules held t.block.toList (readAndFree t) fun _ => [] :=
  (tidy_freeText _).bind fun _ => .pure _ rfl

theorem tidy_allocateAndFree (size : Nat) : Neat rules held (allocateAndFree size) := by
  unfold allocateAndFree
  split
  · have hfreed : ∀ block, Tidy rules held [block]
        (freeText (some block) >>= fun _ => pure (Effect.answer (.bool true))) fun _ => [] :=
      fun block => (tidy_freeText (some block)).bind fun _ => .pure _ rfl
    exact .alloc hfreed
  · exact .pure _ rfl

theorem tidy_secondRuntime (name : Option Text.Bytes) (v : Option Draft) :
    Neat rules [] (secondRuntime name v) := by
  refine (tidy_handOverDraft v).bind fun r => (Tidy.change .addScope).bind fun _ => ?_
  refine .look (fun _ => (tidy_declareGlobal _ _ _ _).bind fun ok => ?_) fun _ _ => rfl
  exact (Tidy.change .dropNewestScope).bind fun _ => tidy_answerStatus ok

theorem tidy_addMethodDirect (handle : Option String) (name : Option Text.Bytes)
    (f : Option String) : Neat rules [] (addMethodDirect handle name f) :=
  .look (fun _ => (tidy_detachInto f).bind fun _ => (tidy_addMethod _ _).bind fun ok =>
    tidy_answerStatus ok) fun _ _ => rfl

theorem tidy_retainAndRelease (handle : Option String) :
    Neat rules held (retainAndRelease handle) := by
  refine .look (fun w => ?_) fun _ _ => rfl
  split
  · refine (tidy_share _).bind fun _ => .look (fun w => ?_) fun _ _ => rfl
    exact tidy_drop.bind fun _ => .pure _ rfl
  · exact .pure _ rfl

theorem tidy_callDirect (hc : on.call.Conducts rules) {call : DirectCall}
    (ha : rules.accounted → call.takes = true) : Neat rules [] (callDirect on call) := by
  cases call with
  | version => exact .pure _ rfl
  | allocateAndFree size => exact tidy_allocateAndFree size
  | run running code =>
    refine (tidy_runText hc running code).bind fun text => ?_
    cases text with
    | some t => exact (tidy_readAndFree t).bind fun s => .pure _ rfl
    | none => exact .pure _ rfl
  | secondRuntime name v => exact tidy_secondRuntime name v
  | createNative f =>
    exact tidy_rawNative (fun f hf => (tidy_createNative hf).bind fun _ => tidy_putTop _) f
  | register running name f =>
    exact tidy_rawNative (fun f hf => (tidy_registerNative _ _ _ hf).bind fun ok =>
      tidy_answerStatus ok) f
  | declare running name v =>
    exact (tidy_handOverDraft v).bind fun r => (tidy_declareGlobal _ _ _ _).bind fun ok =>
      tidy_answerStatus ok
  | createClass running name =>
    exact (tidy_createClass running name).bind fun _ => tidy_putTop _
  | addMethod handle name f => exact tidy_addMethodDirect handle name f
  | arrayLength handle =>
    exact .look (fun _ => (tidy_arrayLength _).bind fun _ => .pure _ rfl) fun _ _ => rfl
  | arrayGet handle index out =>
    exact .look (fun _ => (tidy_arrayGet _ _).bind fun given => tidy_answerGiven ha given)
      fun _ _ => rfl
  | arraySet handle index v =>
    exact .look (fun _ => (tidy_arraySet _ _ _).bind fun ok => tidy_answerStatus ok) fun _ _ => rfl
  | arrayPush handle v =>
    exact .look (fun _ => (tidy_arrayPush _ _).bind fun ok => tidy_answerStatus ok) fun _ _ => rfl
  | objectHas handle key =>
    exact .look (fun _ => (tidy_objectHas _ _).bind fun ok => tidy_answerStatus ok) fun _ _ => rfl
  | objectGet handle key out =>
    exact .look (fun _ => (tidy_objectGet _ _).bind fun given => tidy_answerGiven ha given)
      fun _ _ => rfl
  | objectSet handle key v =>
    exact .look (fun _ => (tidy_objectSet _ _ _).bind fun ok => tidy_answerStatus ok) fun _ _ => rfl
  | objectKeys handle =>
    exact .look (fun _ => (tidy_objectKeys _).bind fun t => (tidy_readAndFree t).bind fun _ =>
      .pure _ rfl) fun _ _ => rfl
  | retainAndRelease handle => exact tidy_retainAndRelease handle
  | call running handle passed out =>
    exact .look (fun _ => (tidy_callFunction hc _ _ _ _ _).bind fun given =>
      tidy_answerGiven ha given) fun _ _ => rfl
  | createTask v =>
    exact .look (fun _ => (tidy_createTask _).bind fun _ => tidy_putTop _) fun _ _ => rfl
  | taskResult handle out =>
    exact .look (fun _ => (tidy_taskResult _).bind fun given => tidy_answerGiven ha given)
      fun _ _ => rfl

/-! ## Steps -/

theorem tidy_carryAction (hc : on.call.Conducts rules) {action : Action}
    (ha : rules.accounted → action.takes = true) (base : Nat) (marks : Marks) :
    Neat rules [] (carryOut on base marks action) := by
  cases action with
  | run code => exact (tidy_engineRun hc code).whenDone fun _ => tidy_answered _
  | register name c => exact tidy_registerCode _ _ _ _ _
  | createFunction c => exact tidy_createCode _ _ _ _
  | registerCode name label kept body => exact tidy_registerCode _ _ _ _ _
  | createCode label kept body => exact tidy_createCode _ _ _ _
  | createClass name =>
    exact Neat.whenDone (tidy_perform hc base (.createClass name)) fun view => .pure _ rfl
  | createObject => exact (tidy_perform hc base .createObject).bind fun view => .pure _ rfl
  | createArray => exact (tidy_perform hc base .createArray).bind fun view => .pure _ rfl
  | createTask v => exact .look (fun _ => (tidy_settledTask _).putting) fun _ _ => rfl
  | taskResult v =>
    exact .look (fun _ => (tidy_settledResult _).bind fun _ => .pure _ rfl) fun _ _ => rfl
  | declareCopy name v => exact (tidy_cloneOperand v).bind fun v => (tidy_declareTop name v).done
  | declareMove name register =>
    exact (tidy_takeRegister register).bind fun v => (tidy_declareTop name v).done
  | bindingCount => exact tidy_bindingCount.bind fun n => tidy_answered _
  | settings => exact .look (fun _ => tidy_answered _) fun _ _ => rfl
  | copy v => exact (tidy_cloneOperand v).bind fun _ => .pure _ rfl
  | take register => exact (tidy_takeRegister register).bind fun _ => .pure _ rfl
  | drop register =>
    exact .look (fun _ => (Tidy.change (.removeRegister register)).bind fun _ => tidy_answered _)
      fun _ _ => rfl
  | detach register => exact tidy_detachRegister register
  | fromHandle kind register claim => exact tidy_fromHandle kind register claim
  | inspect v number bool => exact .look (fun _ => tidy_answered _) fun _ _ => rfl
  | equal a b => exact .look (fun _ => tidy_answered _) fun _ _ => rfl
  | «show» v =>
    refine .look (fun _ => tidy_answered _) fun w hw => ?_
    rw [World.showValue_unlocked hw]
    rfl
  | display register => exact tidy_displayRegister register
  | references register => exact tidy_countReferences register
  | stats whole brief => exact tidy_countStats marks whole brief
  | view kind source => exact (tidy_openView kind source).whenDone fun _ => tidy_answered _
  | arrayLength source =>
    exact (tidy_openView .array source).whenDone fun view => (tidy_viewLength view).bind fun _ =>
      tidy_answered _
  | arrayGet source index =>
    exact (tidy_openView .array source).whenDone fun view => (tidy_arrayElement view index).putting
  | arraySet source index v =>
    exact .look (fun _ => (tidy_openView .array source).whenDone fun view =>
      (tidy_writeElement view index _).whenDone fun _ => tidy_sourceShown source) fun _ _ => rfl
  | arrayPush source v =>
    exact .look (fun _ => (tidy_openView .array source).whenDone fun view =>
      (tidy_appendElement view _).whenDone fun _ => tidy_sourceShown source) fun _ _ => rfl
  | arrayToList source =>
    have hlist : ∀ view, Neat rules [] (listElements view) := fun view =>
      (tidy_viewLength view).bind fun n => tidy_arrayElements view 0 n
    refine (tidy_openView .array source).whenDone fun view => (hlist view).whenDone fun vs => ?_
    refine .look (fun _ => tidy_answered _) fun w hw => ?_
    rw [funext (World.showValue_unlocked hw)]
  | objectHas source key =>
    exact (tidy_openView .object source).whenDone fun view => (tidy_hasKey view key).bind fun _ =>
      tidy_answered _
  | objectGet source key =>
    exact (tidy_openView .object source).whenDone fun view => (tidy_keyedValue view key).putting
  | objectSet source key v =>
    exact .look (fun _ => (tidy_openView .object source).whenDone fun view =>
      (tidy_writeKeyed view key _).whenDone fun _ => tidy_sourceShown source) fun _ _ => rfl
  | objectKeys source =>
    exact (tidy_openView .object source).whenDone fun view => (tidy_ownKeys view).bind fun _ =>
      tidy_answered _
  | call source args receiver => exact tidy_callStep hc source args receiver
  | detachFunction source =>
    exact (tidy_openView .function source).whenDone fun _ => tidy_answered _
  | addMethod source name f => exact tidy_addMethodStep base source name f
  | marshal v =>
    exact .look (fun _ => Neat.whenDone (.pure _ rfl) fun _ => tidy_answered _) fun _ _ => rfl
  | consume register => exact tidy_consumeStep register
  | handBack register => exact tidy_handBackStep register
  | fromRecord draft claim => exact .look (fun _ => (tidy_copyRecord _).putting) fun _ _ => rfl
  | takeOver draft => exact tidy_takeOverStep draft
  | callClosure register passed => exact tidy_callClosureStep hc register passed
  | direct call => exact (tidy_callDirect hc ha).bind fun _ => .pure _ rfl

theorem tidy_carryOut {terms : Terms} (hc : on.call.Orderly terms) {action : Action}
    (ha : terms.accounted → action.takes = true) (base : Nat) (marks : Marks) :
    Neat terms [] (carryOut on base marks action) :=
  tidy_carryAction hc.conducts ha base marks

theorem tidy_settleEffect (into : Option String) (effect : Effect) :
    Neat rules [] (settleEffect into effect) := by
  cases effect with
  | answer a => exact .pure _ rfl
  | put v | putRecord r v | putGiven ok r v =>
    refine .look (fun _ => (tidy_place into v).bind fun _ => .pure _ rfl) fun w hw => ?_
    rw [World.showValue_unlocked hw]

/-- The reports of the calls among some moments, past a number of them. -/
def callReports (noted : Nat) (moments : List Moment) : List CallReport :=
  (moments.take (moments.length - noted)).reverse.filterMap fun moment =>
    match moment.event with
    | .called label args receiver =>
      label.map fun label =>
        ⟨some label, args.map moment.world.showValue, moment.world.showValue receiver⟩
    | _ => none

theorem callReports_unlocked {moments : List Moment} (noted : Nat)
    (h : ∀ mo ∈ moments, mo.world.guards = []) :
    callReports noted (moments.map Moment.unlocked) = callReports noted moments := by
  unfold callReports
  rw [List.length_map, ← List.map_take, ← List.map_reverse, List.filterMap_map]
  refine List.filterMap_congr fun mo hmo => ?_
  have hw := h mo (List.mem_of_mem_take (List.mem_reverse.mp hmo))
  have hshown : mo.unlocked.world.showValue = mo.world.showValue :=
    funext (World.showValue_unlocked hw)
  simp only [Function.comp, hshown]
  rfl

theorem tidy_callsSince (ho : rules.own) (noted : Nat) : Neat rules held (callsSince noted) :=
  .consult ho (callReports noted) fun _ h => callReports_unlocked noted h

theorem tidy_momentCount (ho : rules.own) : Neat rules held momentCount :=
  .consult ho List.length fun _ _ => List.length_map _

theorem tidy_reportStep (ho : rules.own) (marks : Marks) (outcome : Except HostError Answer) :
    Neat rules [] (reportStep marks outcome) :=
  (tidy_callsSince ho _).bind fun _ => (Tidy.note _ fun _ => rfl).bind fun _ =>
    (tidy_momentCount ho).bind fun _ => .look (fun _ => .pure _ rfl) fun _ _ => rfl

theorem tidy_marksAfter (action : Action) (marks : Marks) :
    Neat rules held (marksAfter action marks) := by
  unfold marksAfter
  split
  · exact .look (fun _ => .pure _ rfl) fun _ _ => rfl
  · exact .pure _ rfl

theorem tidy_performAction (ho : rules.own) (hc : on.call.Conducts rules) {action : Action}
    (ha : rules.accounted → action.takes = true) (marks : Marks) (into : Option String) :
    Neat rules [] (performAction on marks action into) := by
  refine tidy_height fun base => (tidy_carryAction hc ha base marks).bind fun outcome => ?_
  have hend : ∀ outcome : Except HostError Answer, Neat rules []
      (unwind base >>= fun _ => marksAfter action marks >>= fun marks =>
        reportStep marks outcome) := fun outcome =>
    (tidy_unwind base).bind fun _ => (tidy_marksAfter action marks).bind fun marks =>
      tidy_reportStep ho marks outcome
  cases outcome with
  | ok effect => exact (tidy_settleEffect into effect).bind fun a => hend _
  | error e => exact hend _

/-- The closures go when the engine has stopped running and its globals have gone. -/
theorem tidy_endEngine : Neat rules held endEngine := by
  have hstopped : endEngine =
      change (fun w => { w with engine := { w.engine with running := false } }) >>= fun _ =>
        change (fun w => w.dropScope w.engine.scope) >>= fun _ =>
          change (World.only (·.engine.running = false) World.dropBindings) := by
    funext m
    let stopped : World :=
      { m.world with engine := { m.world.engine with running := false } }
    obtain ⟨hengine, -⟩ := stopped.dropScope_fields stopped.engine.scope
    have hrunning : (stopped.dropScope stopped.engine.scope).engine.running = false :=
      congrArg Engine.running hengine
    exact change_only (m := { m with world := stopped.dropScope stopped.engine.scope }) hrunning
      World.dropBindings
  rw [hstopped]
  exact (Tidy.change .stopRunning).bind fun _ => (Tidy.change .dropEngineScope).bind fun _ =>
    .change .dropBindings

theorem tidy_endSession : Neat rules held endSession :=
  (Tidy.change .dropRegisters).bind fun _ => tidy_endEngine.bind fun _ => .change .dropKept

/-! ## Sessions -/

/-- Steps during which the host does not access a cell itself. -/
theorem tidy_performSteps (ho : rules.own) (hc : on.call.Conducts rules) {steps : List Step}
    (hplain : ∀ step ∈ steps, step.isPlain = true)
    (ha : rules.accounted → Step.takesAll steps = true) (marks : Marks) :
    Neat rules [] (performSteps on marks steps) := by
  induction steps generalizing marks with
  | nil =>
    rw [performSteps]
    exact .pure _ rfl
  | cons step rest ih =>
    obtain ⟨hstep, hrest⟩ := List.forall_mem_cons.mp hplain
    have ha' : rules.accounted → step.takes = true ∧ Step.takesAll rest = true := fun h => by
      simpa [Step.takesAll] using ha h
    cases step with
    | act action into =>
      rw [performSteps, performStep]
      refine (tidy_performAction ho hc (fun h => (ha' h).1) marks into).bind fun r => ?_
      exact (ih hrest (fun h => (ha' h).2) r.2).bind fun _ => .pure _ rfl
    | borrowed register exclusive steps => cases hstep

theorem tidy_session (ho : rules.own) (b : Budget) {steps : List Step}
    (hplain : ∀ step ∈ steps, step.isPlain = true)
    (ha : rules.accounted → Step.takesAll steps = true) : Neat rules [] (Session.act b steps) := by
  refine .look (fun w => ?_) fun _ _ => rfl
  refine (tidy_performSteps ho (conducts_callNative _ _ _) hplain ha _).bind fun r => ?_
  refine (Tidy.note _ fun _ => rfl).bind fun _ => tidy_endSession.bind fun _ => ?_
  exact .look (fun _ => .pure _ rfl) fun _ _ => rfl

/-- Reports look at moments, and direct calls may lose what they are given. -/
def sessionTerms : Terms :=
  ⟨False, True⟩

end Act
end Enclave
