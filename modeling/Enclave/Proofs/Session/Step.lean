import Enclave.Proofs.Host.Native
import Enclave.Session.Direct

/-! # Steps are accounted for

A step of a session leaves one entry when its effect is a value, and none that anybody counts on when
it is an answer. Only a direct call without a place for what it is given loses a reference.
-/
namespace Enclave

/-- How many entries an effect comes with. -/
def Effect.entries : Effect → Nat
  | .answer _ => 0
  | .put _ | .putRecord _ _ | .putGiven _ _ _ => 1

def entriesOf : Except HostError Effect → Nat
  | .ok effect => effect.entries
  | .error _ => 0

/-- Does the call have a place for what it is given? -/
def DirectCall.takes : DirectCall → Bool
  | .arrayGet _ _ out | .objectGet _ _ out | .call _ _ _ out | .taskResult _ out => out
  | _ => true

namespace Act

variable {α β : Type} {t : Limits} {may : Prop} {o : List Slot} {n : Nat} {on : Surroundings}

theorem over_answered (a : Answer) :
    Spec t may o (Over n o) (answered a) fun r => Over (entriesOf r) o :=
  over_pure _ (Nat.zero_le n)

/-- What follows an act that may fail, where a failure leaves the stack alone. -/
theorem Spec.whenDone {P : List Slot → Prop} {x : Act (Except HostError α)}
    {next : α → Act (Except HostError β)} {Q : Except HostError α → List Slot → Prop}
    {R : Except HostError β → List Slot → Prop} (hx : Spec t may o P x Q)
    (hn : ∀ a, Spec t may o (Q (.ok a)) (next a) R) (he : ∀ e l, Q (.error e) l → R (.error e) l) :
    Spec t may o P (whenDone x next) R := by
  refine hx.bind fun outcome => ?_
  cases outcome with
  | ok a => exact hn a
  | error e => exact spec_pure _ (he e)

theorem over_putting {x : Act (Except HostError Value)}
    (hx : Spec t may o (Over n o) x fun r => Over (whenOkay 1 r) o) :
    Spec t may o (Over n o) (putting x) fun r => Over (entriesOf r) o :=
  hx.whenDone (fun _ => over_pure _ (Nat.le_refl 1)) fun _ _ h => h

theorem over_done {x : Act (Except HostError Unit)}
    (hx : Spec t may o (Over n o) x fun _ => Over 0 o) :
    Spec t may o (Over n o) (done x) fun r => Over (entriesOf r) o :=
  hx.whenDone (fun _ => over_answered _) fun _ _ h => h

/-! ## Registers and values -/

theorem shifts_exchangeRegister (name : String) (kind : Kind) :
    Shifts t may 1 (change (·.exchangeRegister name kind)) fun _ => 1 :=
  shifts_change (fun w => w.move_exchangeRegister t name kind) fun _ _ h =>
    World.over_exchangeRegister (n := 0) h name kind

theorem shifts_takeRegister (name : String) : Shifts t may 0 (takeRegister name) fun _ => 1 := by
  intro o
  refine spec_world fun w => (shifts_push _).bind (Nat.le_refl 0) fun _ => ?_
  split
  · exact (shifts_exchangeRegister name _).bind (Nat.le_refl 1) fun _ => over_pure _ (by simp)
  · exact (shifts_pure _).bind (Nat.zero_le _) fun _ => over_pure _ (by simp)

theorem shifts_place (into : Option String) (v : Value) :
    Shifts t may 1 (place into v) fun _ => 0 := by
  intro o
  unfold place
  cases into with
  | some name =>
    exact (shifts_exchangeRegister name _).bind (Nat.le_refl 1) fun _ => shifts_drop o
  | none => exact shifts_drop o

theorem shifts_openView (kind : Kind) (source : ViewSource) :
    Shifts t may 0 (openView kind source) fun _ => 0 := by
  intro o
  unfold openView
  split
  · exact spec_world fun w => (shifts_viewOf _ _).last (Nat.le_refl 0) (by simp)
  · exact over_pure _ (Nat.le_refl 0)

theorem over_sourceShown (source : ViewSource) :
    Spec t may o (Over n o) (sourceShown source) fun r => Over (entriesOf r) o := by
  unfold sourceShown
  split
  · exact spec_world fun w => over_answered _
  · exact over_answered _

theorem shifts_cloneOperand (operand : Operand) :
    Shifts t may 0 (cloneOperand operand) fun _ => 1 :=
  fun _ => spec_world fun _ => (shifts_share _).bind (Nat.le_refl 0) fun _ => over_pure _ (by simp)

theorem shifts_detachRegister (name : String) :
    Shifts t may 0 (detachRegister name) entriesOf := by
  intro o
  refine spec_world fun w => ?_
  split
  · exact over_answered _
  · split
    · exact (shifts_takeRegister name).bind (Nat.le_refl 0) fun v => over_pure _ (by
        simp [entriesOf, Effect.entries])
    · exact over_answered _

theorem shifts_nullPut : Shifts t may 0 (push .null >>= fun _ => pure (.ok (.put .null)))
    entriesOf :=
  fun _ => (shifts_push _).bind (Nat.le_refl 0) fun _ => over_pure _ (by
    simp [entriesOf, Effect.entries])

theorem shifts_fromHandle (kind : Kind) (name : String) (claim : Claim) :
    Shifts t may 0 (fromHandle kind name claim) entriesOf := by
  intro o
  refine spec_world fun w => ?_
  split
  · split
    · cases claim with
      | retain =>
        exact (shifts_share _).bind (Nat.le_refl 0) fun _ => over_pure _ (by
          simp [entriesOf, Effect.entries])
      | adopt =>
        exact (shifts_takeRegister name).bind (Nat.le_refl 0) fun _ => over_pure _ (by
          simp [entriesOf, Effect.entries])
    · exact shifts_nullPut o
  · exact shifts_nullPut o

/-! ## Closures -/

theorem shifts_cloneAll (operands : List Operand) :
    Shifts t may 0 (cloneAll operands) fun _ => 0 := by
  induction operands with
  | nil =>
    rw [cloneAll]
    exact fun _ => over_pure _ (Nat.le_refl 0)
  | cons operand rest ih =>
    intro o
    rw [cloneAll]
    exact (shifts_cloneOperand operand).bind (Nat.le_refl 0) fun v =>
      ih.bind (Nat.zero_le _) fun more => over_pure _ (Nat.zero_le _)

theorem over_registerCode (name : String) (label : Option String) (kept : List Operand)
    (body : HostFunction) :
    Spec t may o (Over 0 o) (registerCode on o.length name label kept body)
      fun r => Over (entriesOf r) o :=
  (shifts_cloneAll kept).bind (Nat.le_refl 0) fun captured =>
    over_done (over_registerClosure name label captured body)

theorem over_createCode (label : Option String) (kept : List Operand) (body : HostFunction) :
    Spec t may o (Over 0 o) (createCode o.length label kept body)
      fun r => Over (entriesOf r) o :=
  (shifts_cloneAll kept).bind (Nat.le_refl 0) fun captured =>
    (over_createClosure label captured body).bind fun _ => over_pure _ (Nat.le_refl 1)

/-! ## Views -/

/-- What follows a view that is opened for it. -/
theorem over_withView {kind : Kind} {source : ViewSource}
    {next : View kind → Act (Except HostError Effect)}
    (hn : ∀ view, Spec t may o (Over 0 o) (next view) fun r => Over (entriesOf r) o) :
    Spec t may o (Over 0 o) (whenDone (openView kind source) next)
      fun r => Over (entriesOf r) o :=
  (shifts_openView kind source o).whenDone hn fun _ _ h => h

theorem over_viewStep (kind : Kind) (source : ViewSource) :
    Spec t may o (Over 0 o) (viewStep kind source) fun r => Over (entriesOf r) o :=
  over_withView fun _ => over_answered _

theorem shifts_listElements (view : View .array) :
    Shifts t may 0 (listElements view) fun _ => 0 :=
  fun o => (shifts_viewLength view).bind (Nat.le_refl 0) fun n => shifts_arrayElements view 0 n o

theorem over_callStep (hc : on.call.Safe t) (source : ViewSource) (args : List Operand)
    (receiver : Operand) :
    Spec t may o (Over 0 o) (callStep on source args receiver) fun r => Over (entriesOf r) o :=
  (shifts_cloneAll args).bind (Nat.le_refl 0) fun given => spec_world fun _ =>
    over_withView fun view => over_putting ((shifts_callView hc view given _) o)

theorem shifts_takeFunction (source : ViewSource) :
    Shifts t may 0 (takeFunction source) fun _ => 0 := by
  intro o
  unfold takeFunction
  split
  · exact (shifts_takeRegister _).bind (Nat.le_refl 0) fun v =>
      (shifts_viewTaken _ v).last (Nat.le_refl 1) (by simp)
  · exact over_pure _ (Nat.le_refl 0)

theorem over_addMethodStep (source : ViewSource) (name : String) (f : ViewSource) :
    Spec t may o (Over 0 o) (addMethodStep o.length source name f)
      fun r => Over (entriesOf r) o :=
  over_withView fun target => (shifts_takeFunction f o).whenDone
    (fun method => (over_installMethod target name method).whenDone
      (fun _ => over_sourceShown source) fun _ _ h => h) fun _ _ h => h

/-! ## Records -/

theorem shifts_consumeStep (name : String) : Shifts t may 0 (consumeStep name) entriesOf := by
  refine fun o => (shifts_takeRegister name).bind (Nat.le_refl 0) fun v => ?_
  refine Spec.whenDone (shifts_handOver v o) (fun r => ?_) fun _ _ h => h
  exact (shifts_takeOver r).bind (Nat.le_refl 1) fun back => over_pure _ (Nat.le_refl 1)

theorem shifts_handBackStep (name : String) : Shifts t may 0 (handBackStep name) entriesOf :=
  fun _ => (shifts_takeRegister name).bind (Nat.le_refl 0) fun v =>
    (shifts_handBack v).bind (Nat.le_refl 1) fun r =>
      (shifts_takeOver r).bind (Nat.le_refl 1) fun _ => over_pure _ (Nat.le_refl 1)

theorem shifts_takeOverStep (draft : Draft) : Shifts t may 0 (takeOverStep draft) entriesOf :=
  fun _ => spec_world fun _ => (shifts_endow _).bind (Nat.le_refl 0) fun r =>
    (shifts_takeOver r).bind (Nat.le_refl 1) fun _ => over_pure _ (Nat.le_refl 1)

theorem over_callClosureStep (hc : on.call.Safe t) (name : String) (passed : DraftCall) :
    Spec t False o (Over 0 o) (callClosureStep on name passed) fun r => Over (entriesOf r) o := by
  refine spec_world fun w => Spec.bind (Q := fun _ => Over 0 o) ?_ fun i => ?_
  · refine spec_world fun w => ?_
    split <;> exact over_pure _ (Nat.le_refl 0)
  · refine Spec.bind (hc none _ _ _ _ o fun id hid => by cases hid) fun r => ?_
    exact (shifts_takeOver r).bind (Nat.le_refl 1) fun _ => over_pure _ (Nat.le_refl 1)

/-! ## Direct calls -/

/-- An effect that stands for itself. -/
theorem over_answer (a : Answer) :
    Spec t may o (Over n o) (pure (.answer a)) fun e => Over (Effect.entries e) o :=
  over_pure _ (Nat.zero_le n)

theorem shifts_answerGiven {out : Bool} (ht : t.lossless → out = true) (given : Given) :
    Shifts t may 1 (answerGiven out given) Effect.entries := by
  intro o
  unfold answerGiven
  split
  · exact (shifts_takeOver _).bind (Nat.le_refl 1) fun _ => over_pure _ (Nat.le_refl 1)
  · rename_i hout
    refine Spec.bind (Q := fun _ => Over 0 o) ?_ fun _ => over_answer _
    exact over_change (fun w => w.move_forget fun h => hout (ht h)) fun w h =>
      Over.drop (k := 1) h

theorem shifts_putTop (kind : Kind) : Shifts t may 1 (putTop kind) Effect.entries :=
  fun _ => spec_top fun _ => over_pure _ (Nat.le_refl 1)

theorem shifts_rawNative (f : Option RawFunction) : Shifts t may 0 (rawNative f) fun _ => 0 := by
  intro o
  unfold rawNative
  split
  · exact over_pure _ (Nat.le_refl 0)
  · exact over_pure _ (Nat.le_refl 0)
  · exact over_pure _ (Nat.le_refl 0)
  · exact over_pure _ (Nat.le_refl 0)
  · exact over_pure _ (Nat.le_refl 0)
  · refine spec_world fun w => ?_
    dsimp only
    split
    · refine (shifts_share _).bind (Nat.le_refl 0) fun _ => ?_
      exact Shifts.bind (shifts_change (World.move_keep t) fun _ _ h => World.over_keep h)
        (Nat.le_refl 1) fun _ => over_pure _ (Nat.zero_le _)
    · exact over_pure _ (Nat.le_refl 0)

theorem shifts_detachInto (register : Option String) :
    Shifts t may 0 (detachInto register) fun _ => 1 := by
  intro o
  refine spec_world fun w => ?_
  split
  · exact (shifts_takeRegister _).bind (Nat.le_refl 0) fun _ => over_pure _ (by simp)
  · exact shifts_push _ o

theorem shifts_handOverDraft (v : Option Draft) :
    Shifts t may 0 (handOverDraft v) fun _ => 1 := by
  intro o
  refine spec_world fun w => ?_
  cases v with
  | none => exact (shifts_push _).bind (Nat.le_refl 0) fun _ => over_pure _ (by simp)
  | some d => exact (shifts_detachInto _).bind (Nat.le_refl 0) fun _ => over_pure _ (by simp)

theorem shifts_readAndFree (text : TextRef) : Shifts t may 0 (readAndFree text) fun _ => 0 :=
  fun _ => (shifts_freeText _).bind (Nat.le_refl 0) fun _ => over_pure _ (Nat.zero_le _)

theorem shifts_allocateAndFree (size : Nat) :
    Shifts t may 0 (allocateAndFree size) Effect.entries := by
  intro o
  unfold allocateAndFree
  split
  · refine spec_world fun w => Spec.bind (Q := fun _ => Over 0 o) ?_ fun _ => ?_
    · exact over_change (World.move_allocText t) fun _ h => h
    · exact (shifts_freeText _).bind (Nat.le_refl 0) fun _ => over_answer _
  · exact over_answer _

/-- The second runtime's scope is gone when the step is over. -/
theorem over_secondRuntime (ht : ¬ t.second) (name : Option Text.Bytes) (v : Option Draft) :
    Spec t False o (Over 0 o) (secondRuntime name v) fun e => Over (Effect.entries e) o := by
  refine (shifts_handOverDraft v).bind (Nat.le_refl 0) fun r => ?_
  let declared : Act Bool := world >>= fun w =>
    declareGlobal (w.scopes.size - 1) true name r
  have hx : Spec { t with second := True } False o (Over 1 o) declared fun _ => Over 0 o :=
    spec_world fun w => shifts_declareGlobal _ _ _ _ o
  have ht' : ({ t with second := True } : Limits).lossless ↔ t.lossless := Iff.rfl
  have hend : ∀ ok : Bool, Spec t False o (Over 0 o) (answerStatus ok)
      fun e => Over (Effect.entries e) o := fun ok => over_answer _
  refine spec_inside ht' (fun w hs hw => ?_) hx (fun w ok hs hw => ?_) hend
  · exact ⟨w.sound_addScope hs ht, Heap.Later.refl _, hw.1, hw⟩
  · obtain ⟨-, -, hstack, -, hl⟩ := w.dropScope_fields (w.scopes.size - 1)
    exact ⟨w.sound_dropNewestScope hs, hl, hstack ▸ hw.1, hstack ▸ hw⟩

theorem over_addMethodDirect (handle : Option String) (name : Option Text.Bytes)
    (f : Option String) : Shifts t may 0 (addMethodDirect handle name f) Effect.entries :=
  fun _ => spec_world fun _ => (shifts_detachInto f).bind (Nat.le_refl 0) fun _ =>
    (shifts_addMethod _ _).bind (Nat.le_refl 1) fun _ => over_answer _

theorem shifts_retainAndRelease (handle : Option String) :
    Shifts t may 0 (retainAndRelease handle) Effect.entries := by
  intro o
  refine spec_world fun w => ?_
  split
  · exact (shifts_share _).bind (Nat.le_refl 0) fun _ => spec_world fun w =>
      shifts_drop.bind (Nat.le_refl 1) fun _ => over_answer _
  · exact over_answer _

theorem over_callDirect (hc : on.call.Safe t) (ht : ¬ t.second) {call : DirectCall}
    (hl : t.lossless → call.takes = true) :
    Spec t False o (Over 0 o) (callDirect on call) fun e => Over (Effect.entries e) o := by
  cases call with
  | version => exact over_answer _
  | allocateAndFree size => exact shifts_allocateAndFree size o
  | run running code =>
    refine (shifts_runText hc running code).bind (Nat.le_refl 0) fun text => ?_
    cases text with
    | some text => exact (shifts_readAndFree text).bind (Nat.zero_le _) fun s => over_answer _
    | none => exact over_answer _
  | secondRuntime name v => exact over_secondRuntime ht name v
  | createNative f =>
    exact (shifts_rawNative f).bind (Nat.le_refl 0) fun f =>
      (shifts_createNative f).bind (Nat.zero_le _) fun _ => shifts_putTop _ o
  | register running name f =>
    exact (shifts_rawNative f).bind (Nat.le_refl 0) fun f =>
      (shifts_registerNative _ _ _ _).bind (Nat.zero_le _) fun _ => over_answer _
  | declare running name v =>
    exact (shifts_handOverDraft v).bind (Nat.le_refl 0) fun r =>
      (shifts_declareGlobal _ _ _ _).bind (Nat.le_refl 1) fun _ => over_answer _
  | createClass running name =>
    exact (shifts_createClass running name).bind (Nat.le_refl 0) fun _ => shifts_putTop _ o
  | addMethod handle name f => exact over_addMethodDirect handle name f o
  | arrayLength handle =>
    exact spec_world fun w => (shifts_arrayLength _).bind (Nat.le_refl 0) fun _ => over_answer _
  | arrayGet handle index out =>
    exact spec_world fun w => (shifts_arrayGet _ _).bind (Nat.le_refl 0) fun given =>
      shifts_answerGiven hl given o
  | arraySet handle index v =>
    exact spec_world fun w => (shifts_arraySet _ _ _).bind (Nat.le_refl 0) fun _ => over_answer _
  | arrayPush handle v =>
    exact spec_world fun w => (shifts_arrayPush _ _).bind (Nat.le_refl 0) fun _ => over_answer _
  | objectHas handle key =>
    exact spec_world fun w => (shifts_objectHas _ _).bind (Nat.le_refl 0) fun _ => over_answer _
  | objectGet handle key out =>
    exact spec_world fun w => (shifts_objectGet _ _).bind (Nat.le_refl 0) fun given =>
      shifts_answerGiven hl given o
  | objectSet handle key v =>
    exact spec_world fun w => (shifts_objectSet _ _ _).bind (Nat.le_refl 0) fun _ => over_answer _
  | objectKeys handle =>
    exact spec_world fun w => (shifts_objectKeys _).bind (Nat.le_refl 0) fun text =>
      (shifts_readAndFree text).bind (Nat.zero_le _) fun s => over_answer _
  | retainAndRelease handle => exact shifts_retainAndRelease handle o
  | call running handle passed out =>
    exact spec_world fun w => (shifts_callFunction hc _ _ _ _ _).bind (Nat.le_refl 0) fun given =>
      shifts_answerGiven hl given o
  | createTask v =>
    exact spec_world fun w => (shifts_createTask _).bind (Nat.le_refl 0) fun _ =>
      shifts_putTop _ o
  | taskResult handle out =>
    exact spec_world fun w => (shifts_taskResult _).bind (Nat.le_refl 0) fun given =>
      shifts_answerGiven hl given o

end Act
end Enclave
