import Enclave.Proofs.Session.Step
import Enclave.Proofs.World.Ending
import Enclave.Session.Run

/-! # Sessions are accounted for

Between two steps of a session nothing is left on the working stack, whatever the steps did and
however they failed. From one step to a list of steps by induction on the list, and for steps inside
a step by induction on the step.
-/
namespace Enclave

def Action.takes : Action → Bool
  | .direct c => c.takes
  | _ => true

mutual

/-- Has every direct call of a step a place for what it is given? -/
def Step.takes : Step → Bool
  | .act action _ => action.takes
  | .borrowed _ _ steps => takesAll steps

def Step.takesAll : List Step → Bool
  | [] => true
  | step :: rest => step.takes && takesAll rest

end

/-- Limits between the steps of one engine: no other runtime is there. -/
def Limits.between (home : ScopeId) (held : List Slot) (lossless : Prop) : Limits :=
  ⟨home, False, held, lossless⟩

namespace Act

variable {t : Limits} {may : Prop} {o : List Slot} {on : Surroundings}

theorem over_carryOut (hc : on.call.Safe t) (ht : ¬ t.second) {action : Action}
    (hl : t.lossless → action.takes = true) (marks : Marks) :
    Spec t False o (Over 0 o) (carryOut on o.length marks action)
      fun r => Over (entriesOf r) o := by
  cases action with
  | run code => exact (shifts_engineRun hc code o).whenDone (fun _ => over_answered _) fun _ _ h => h
  | register name c => exact over_registerCode _ _ _ _
  | createFunction c => exact over_createCode _ _ _
  | registerCode name label kept body => exact over_registerCode _ _ _ _
  | createCode label kept body => exact over_createCode _ _ _
  | createClass name =>
    exact Spec.whenDone (shifts_createNamed name o) (fun _ => over_pure _ (Nat.le_refl 1))
      fun _ _ h => h
  | createObject =>
    exact (shifts_create _ rfl _).bind (Nat.le_refl 0) fun _ => over_pure _ (Nat.le_refl 1)
  | createArray =>
    exact (shifts_create _ rfl _).bind (Nat.le_refl 0) fun _ => over_pure _ (Nat.le_refl 1)
  | createTask v => exact spec_world fun w => over_putting (shifts_settledTask _ o)
  | taskResult v =>
    exact spec_world fun w => (shifts_settledResult _).bind (Nat.le_refl 0) fun _ =>
      over_pure _ (Nat.le_refl 1)
  | declareCopy name v =>
    exact (shifts_cloneOperand v).bind (Nat.le_refl 0) fun v => over_done (shifts_declareTop name v o)
  | declareMove name register =>
    exact (shifts_takeRegister register).bind (Nat.le_refl 0) fun v =>
      over_done (shifts_declareTop name v o)
  | bindingCount =>
    exact shifts_bindingCount.bind (Nat.le_refl 0) fun _ => over_answered _
  | settings => exact spec_world fun w => over_answered _
  | copy v =>
    exact (shifts_cloneOperand v).bind (Nat.le_refl 0) fun _ => over_pure _ (Nat.le_refl 1)
  | take register =>
    exact (shifts_takeRegister register).bind (Nat.le_refl 0) fun _ => over_pure _ (Nat.le_refl 1)
  | drop register =>
    exact spec_world fun w => Spec.bind (Q := fun _ => Over 0 o)
      (over_change (fun w => w.move_removeRegister t register) fun w h => by
        unfold World.removeRegister
        split <;> exact h) fun _ => over_answered _
  | detach register => exact shifts_detachRegister register o
  | fromHandle kind register claim => exact shifts_fromHandle kind register claim o
  | inspect v number bool => exact spec_world fun w => over_answered _
  | equal a b => exact spec_world fun w => over_answered _
  | «show» v => exact spec_world fun w => over_answered _
  | display register =>
    refine spec_world fun w => ?_
    split <;> exact over_answered _
  | references register =>
    refine spec_world fun w => ?_
    split <;> exact over_answered _
  | stats whole brief => exact spec_world fun w => over_answered _
  | view kind source => exact over_viewStep kind source
  | arrayLength source =>
    exact over_withView fun view => (shifts_viewLength view).bind (Nat.le_refl 0) fun _ =>
      over_answered _
  | arrayGet source index =>
    exact over_withView fun view => over_putting (shifts_arrayElement view index o)
  | arraySet source index v =>
    exact spec_world fun w => over_withView fun view =>
      (shifts_writeElement view index _ o).whenDone (fun _ => over_sourceShown source)
        fun _ _ h => h
  | arrayPush source v =>
    exact spec_world fun w => over_withView fun view =>
      (shifts_appendElement view _ o).whenDone (fun _ => over_sourceShown source) fun _ _ h => h
  | arrayToList source =>
    exact over_withView fun view => (shifts_listElements view o).whenDone
      (fun _ => spec_world fun w => over_answered _) fun _ _ h => h
  | objectHas source key =>
    exact over_withView fun view => (shifts_hasKey view key).bind (Nat.le_refl 0) fun _ =>
      over_answered _
  | objectGet source key =>
    exact over_withView fun view => over_putting (shifts_keyedValue view key o)
  | objectSet source key v =>
    exact spec_world fun w => over_withView fun view =>
      (shifts_writeKeyed view key _ o).whenDone (fun _ => over_sourceShown source) fun _ _ h => h
  | objectKeys source =>
    exact over_withView fun view => (shifts_ownKeys view).bind (Nat.le_refl 0) fun _ =>
      over_answered _
  | call source args receiver => exact over_callStep hc source args receiver
  | detachFunction source => exact over_withView fun _ => over_answered _
  | addMethod source name f => exact over_addMethodStep source name f
  | marshal v =>
    exact spec_world fun w => Spec.whenDone (Q := fun _ => Over 0 o)
      (spec_pure _ fun _ h => h) (fun _ => over_answered _) fun _ _ h => h
  | consume register => exact shifts_consumeStep register o
  | handBack register => exact shifts_handBackStep register o
  | fromRecord draft claim => exact spec_world fun w => over_putting (shifts_copyRecord _ o)
  | takeOver draft => exact shifts_takeOverStep draft o
  | callClosure register passed => exact over_callClosureStep hc register passed
  | direct call =>
    exact (over_callDirect hc ht hl).bind fun _ => spec_pure _ fun _ h => h

theorem over_settleEffect (into : Option String) (effect : Effect) :
    Spec t may o (Over effect.entries o) (settleEffect into effect) fun _ => Over 0 o := by
  cases effect with
  | answer a => exact over_pure _ (Nat.le_refl 0)
  | put v | putRecord r v | putGiven ok r v =>
    exact spec_world fun w => (shifts_place into v).bind (Nat.le_refl 1) fun _ =>
      over_pure _ (Nat.zero_le _)

/-! ## Steps -/

/-- Before and after a step nothing is on the working stack. -/
def Even {α : Type} (t : Limits) (x : Act α) : Prop :=
  Spec t False [] (· = []) x fun _ l => l = []

theorem even_pure {α : Type} (r : α) : Even t (pure r) :=
  spec_pure r fun _ h => h

theorem Even.bind {α β : Type} {x : Act α} {f : α → Act β} (hx : Even t x)
    (hf : ∀ r, Even t (f r)) : Even t (x >>= f) :=
  Spec.bind hx hf

theorem even_reportStep (marks : Marks) (outcome : Except HostError Answer) :
    Even t (reportStep marks outcome) := by
  have hcalls : Even t (callsSince marks.moments) := fun m hm hs => ⟨hm, rfl, hs⟩
  have hcount : Even t momentCount := fun m hm hs => ⟨hm, rfl, hs⟩
  have hnote : Even t (note .stepped) := spec_note rfl fun _ _ h => h
  exact hcalls.bind fun calls => hnote.bind fun _ => hcount.bind fun noted =>
    spec_world fun w => even_pure _

theorem even_performAction (hc : on.call.Safe t) (ht : ¬ t.second) {action : Action}
    (hl : t.lossless → action.takes = true) (marks : Marks) (into : Option String) :
    Even t (performAction on marks action into) := by
  refine spec_height ((over_carryOut hc ht hl marks).here.bind fun outcome => ?_)
  have hend : ∀ outcome : Except HostError Answer, Spec t False [] (Over 0 [])
      (unwind ([] : List Slot).length >>= fun _ => marksAfter action marks >>= fun marks =>
        reportStep marks outcome) fun _ l => l = [] := by
    intro outcome
    refine (spec_unwind []).bind fun _ => Even.bind ?_ fun marks => even_reportStep marks outcome
    unfold marksAfter
    split
    · exact spec_world fun w => even_pure _
    · exact even_pure _
  cases outcome with
  | ok effect => exact (over_settleEffect into effect).bind fun a => hend _
  | error e => exact hend _

theorem spec_share {l : List Slot} (s : Slot) :
    Spec t may [] (· = l) (share s) fun _ l' => ∃ s', l' = s' :: l := by
  refine spec_change (fun w => w.move_share t s) fun w hw _ => ⟨List.nil_suffix, ?_⟩
  unfold World.share
  split
  · exact ⟨_, congrArg _ hw⟩
  · split <;> exact ⟨_, congrArg _ hw⟩

/-- The host holds a cell that it is at work on, and gives it back when that is over. -/
theorem even_borrowing {α : Type} {x : Act α}
    (hx : ∀ s, Even { t with held := s :: t.held } x) (register : String) (exclusive : Bool) :
    Even t (borrowing register exclusive x) := by
  refine spec_world fun w => ?_
  split
  · exact even_pure _
  · refine (spec_share _).bind fun _ => Spec.exactly fun l hl _ => ?_
    obtain ⟨s, rfl⟩ := hl
    have ht' : ({ t with held := s :: t.held } : Limits).lossless ↔ t.lossless := Iff.rfl
    refine spec_inside ht' (fun w hs hw => ?_) (Spec.accessing ((hx s).map fun _ _ h => h)
      (even_pure _) _) (fun w r hs hw => ?_) fun r => even_pure _
    · have hstack : w.hold.stack = [] := by simp only [World.hold, hw]
      refine ⟨w.sound_hold hs hw, ?_, hstack ▸ List.nil_suffix, hstack⟩
      simp only [World.hold, hw]
      exact Heap.Later.refl _
    · exact ⟨w.sound_letGo hs rfl, Heap.later_releaseSlots _ _, List.nil_suffix, hw⟩

mutual

theorem even_performStep (b : Budget) (scope : ScopeId) {t : Limits} (ht : ¬ t.second) :
    ∀ (step : Step) (marks : Marks), (t.lossless → step.takes = true) →
      Even t (performStep (b.surroundings scope) marks step)
  | .act action into, marks, hl => by
    rw [performStep]
    exact even_performAction (b.safe_surroundings t scope) ht hl marks into
  | .borrowed register exclusive steps, marks, hl => by
    rw [performStep]
    refine (even_borrowing (fun s => ?_) register exclusive).bind fun outcome => ?_
    · exact even_performSteps b scope (t := { t with held := s :: t.held }) ht steps marks hl
    · cases outcome with
      | ok reports => exact even_reportStep _ _
      | error a => exact even_reportStep _ _

theorem even_performSteps (b : Budget) (scope : ScopeId) {t : Limits} (ht : ¬ t.second) :
    ∀ (steps : List Step) (marks : Marks), (t.lossless → Step.takesAll steps = true) →
      Even t (performSteps (b.surroundings scope) marks steps)
  | [], marks, hl => by
    rw [performSteps]
    exact even_pure _
  | step :: rest, marks, hl => by
    have hl' : t.lossless → step.takes = true ∧ Step.takesAll rest = true := fun h => by
      simpa [Step.takesAll] using hl h
    rw [performSteps]
    refine (even_performStep b scope ht step marks fun h => (hl' h).1).bind fun r => ?_
    refine (even_performSteps b scope ht rest r.2 fun h => (hl' h).2).bind fun r => ?_
    exact even_pure _

end

end Act

/-! ## Whole sessions -/

/-- How a session ends: with the end of the world that it has noted last, which was sound and had
nothing in hand, or else with its budget used up. All of its moments are in order. -/
inductive Session.Ends (lossless : Prop) : Outcome Session.Summary → Prop
  | done (summary : Session.Summary) (w : World) (older : List Moment)
      (hs : w.Sound (.between 0 [] lossless)) (hstack : w.stack = [])
      (hbalanced : summary.balanced = w.ended.heap.tally.isBalanced)
      (hrecorded : Recorded lossless (⟨.closing, w⟩ :: older)) :
      Ends lossless (.done summary ⟨w.ended, ⟨.closing, w⟩ :: older⟩)
  | stopped (halt : Halt) (hrecorded : Recorded lossless halt.machine.moments) :
      Ends lossless (.stopped halt)

theorem Session.ends_runWithin (b : Budget) (s : Session) {lossless : Prop}
    (hl : lossless → Step.takesAll s.steps = true) :
    Session.Ends lossless (s.runWithin b) := by
  have hsteps := Act.even_performSteps b 0 (t := .between 0 [] lossless) not_false s.steps .start hl
    ⟨.initial s.config, []⟩ (Machine.good_initial s.config _ lossless) rfl
  have he : s.runWithin b = Act.bind (Act.performSteps (b.surroundings 0) .start s.steps)
      (fun r m => .done ⟨r.1, m.world.ended.heap.tally.live, m.world.ended.ledger.live,
        m.world.ended.heap.tally.isBalanced⟩ ⟨m.world.ended, ⟨.closing, m.world⟩ :: m.moments⟩)
      ⟨.initial s.config, []⟩ := rfl
  rw [he]
  unfold Act.bind
  cases hr : Act.performSteps (b.surroundings 0) .start s.steps ⟨.initial s.config, []⟩ with
  | done r m =>
    rw [hr] at hsteps
    obtain ⟨hm, -, hstack⟩ := hsteps
    exact .done _ m.world m.moments hm.sound hstack rfl (hm.plain rfl fun _ => hstack).recorded
  | raised e m =>
    rw [hr] at hsteps
    exact hsteps.1.elim
  | stopped halt =>
    rw [hr] at hsteps
    exact .stopped halt hsteps

end Enclave
