import Enclave.Host.Perform
import Enclave.Proofs.Boundary.Entry

/-! # Requests are accounted for

What host code asks for leaves alone everything under the base of its call. A value or a view in a
reply has an entry of its own above the base; one that a request consumes is taken from there.
-/
namespace Enclave.Act

variable {α β ε : Type} {t : Limits} {may : Prop} {o : List Slot} {n : Nat} {on : Surroundings}

/-! ## Values and records -/

theorem shifts_clearScalar (v : Value) : Shifts t may 1 (clearScalar v) fun _ => 1 := by
  intro o
  unfold clearScalar
  split
  · exact shifts_drop.bind (Nat.le_refl 1) fun _ => (shifts_push _).last (Nat.zero_le _) (by simp)
  · exact over_pure _ (Nat.le_refl 1)

theorem shifts_copyRecord (r : Record) : Shifts t may 0 (copyRecord r) (whenOkay 1) := by
  intro o
  unfold copyRecord
  split
  · exact (shifts_share _).bind (Nat.le_refl 0) fun _ => over_pure _ (by simp [whenOkay])
  · exact over_pure _ (Nat.le_refl 0)

theorem shifts_keepScalar (v : Value) : Shifts t may 1 (keepScalar v) fun _ => 1 := by
  intro o
  unfold keepScalar
  split
  · exact shifts_drop.bind (Nat.le_refl 1) fun _ => (shifts_push _).last (Nat.zero_le _) (by simp)
  · exact over_pure _ (Nat.le_refl 1)

theorem shifts_takeOver (r : Record) : Shifts t may 1 (takeOver r) fun _ => 1 :=
  fun _ => (shifts_keepScalar _).bind (Nat.le_refl 1) fun _ =>
    (shifts_freeText _).bind (Nat.zero_le _) fun _ => over_pure _ (by simp)

theorem shifts_handOver (v : Value) : Shifts t may 1 (handOver v) (whenOkay 1) := by
  intro o
  unfold handOver
  split
  · exact (shifts_clearScalar v).bind (Nat.le_refl 1) fun _ => over_pure _ (by simp [whenOkay])
  · exact shifts_drop.bind (Nat.le_refl 1) fun _ => over_pure _ (Nat.zero_le _)

theorem shifts_resultRecord (v : Value) : Shifts t may 0 (resultRecord v) fun _ => 0 := by
  intro o
  unfold resultRecord
  split
  · exact (shifts_allocText _ o).map fun _ _ h => h
  all_goals exact over_pure _ (Nat.le_refl 0)

theorem shifts_handBack (v : Value) : Shifts t may 1 (handBack v) fun _ => 1 :=
  fun _ => (shifts_resultRecord v).bind (Nat.zero_le 1) fun _ =>
    (shifts_clearScalar v).bind (by simp) fun _ => over_pure _ (by simp)

/-! ## Views and replies -/

theorem shifts_viewTop (kind : Kind) : Shifts t may 0 (viewTop kind) fun _ => 0 :=
  fun _ => spec_top fun _ => over_pure _ (Nat.le_refl 0)

theorem shifts_viewMade (kind : Kind) : Shifts t may 1 (viewMade kind) (whenOkay 1) := by
  intro o
  refine (shifts_viewTop kind).bind (Nat.zero_le _) fun view => ?_
  split
  · exact over_pure _ (Nat.le_refl 1)
  · exact shifts_drop.bind (by simp) fun _ => over_pure _ (Nat.zero_le _)

theorem shifts_viewTaken (kind : Kind) (v : Value) :
    Shifts t may 1 (viewTaken kind v) (whenOkay 1) := by
  intro o
  unfold viewTaken
  split
  · exact over_pure _ (Nat.le_refl 1)
  · exact shifts_drop.bind (Nat.le_refl 1) fun _ => over_pure _ (Nat.zero_le _)

theorem shifts_viewOf (kind : Kind) (v : Value) : Shifts t may 0 (viewOf kind v) (whenOkay 1) :=
  fun _ => (shifts_share _).bind (Nat.le_refl 0) fun _ =>
    (shifts_viewTaken kind v).last (Nat.le_refl 1) (by simp)

theorem shifts_accept (operation : Operation) (given : Given) :
    Shifts t may 1 (accept operation given) (whenOkay 1) := by
  intro o
  refine (shifts_takeOver _).bind (Nat.le_refl 1) fun v => ?_
  split
  · exact over_pure _ (Nat.le_refl 1)
  · exact shifts_drop.bind (Nat.le_refl 1) fun _ => over_pure _ (Nat.zero_le _)

theorem shifts_confirm (operation : Operation) (status : Bool) :
    Shifts t may 0 (confirm operation status) fun _ => 0 :=
  fun _ => over_pure _ (Nat.le_refl 0)

theorem shifts_giveNull : Shifts t may 0 giveNull (whenOkay 1) :=
  fun _ => (shifts_push _).bind (Nat.le_refl 0) fun _ => over_pure _ (by simp [whenOkay])

theorem Spec.whenOk {P : List Slot → Prop} {Q : Except HostError β → List Slot → Prop}
    {next : α → Act (Except HostError β)} (hx : ∀ a, Spec t may o P (next a) Q)
    (he : ∀ e l, P l → Q (.error e) l) (check : Except HostError α) :
    Spec t may o P (whenOk check next) Q := by
  unfold Act.whenOk
  split
  · exact hx _
  · exact spec_pure _ (he _)

/-- What a check decides, where a refusal leaves the stack alone. -/
theorem over_whenOk {b : Except HostError β → Nat} {next : α → Act (Except HostError β)}
    (hx : ∀ a, Spec t may o (Over n o) (next a) fun r => Over (b r) o)
    (he : ∀ e, b (.error e) ≤ n) (check : Except HostError α) :
    Spec t may o (Over n o) (Act.whenOk check next) fun r => Over (b r) o :=
  Spec.whenOk hx (fun e _ h => h.mono (he e)) check

/-- What a check decides, where a refusal drops what was to be taken over. -/
theorem over_whenTaken {b : Except HostError β → Nat} {next : α → Act (Except HostError β)}
    (hx : ∀ a, Spec t may o (Over 0 o) (next a) fun r => Over (b r) o)
    (he : ∀ e, b (.error e) = 0) (taken : List Slot) (check : Except HostError α) :
    Spec t may o (Over 0 o) (whenTaken o.length taken check next) fun r => Over (b r) o := by
  unfold whenTaken
  split
  · exact hx _
  · rename_i e
    refine Spec.bind (Q := fun _ => Over 0 o) ?_ fun _ => over_pure _ (Nat.le_of_eq (he e))
    exact over_change (fun w => w.move_discardAll t _ _) fun _ h => World.over_discardAll _ h

/-! ## Operations -/

theorem shifts_engineRun (hc : on.call.Safe t) (code : String) :
    Shifts t may 0 (engineRun on code) fun _ => 0 := by
  intro o
  refine over_whenOk (fun bytes => ?_) (fun _ => Nat.le_refl 0) _
  refine (shifts_runText hc _ _).bind (Nat.le_refl 0) fun text => ?_
  cases text with
  | some text =>
    exact (shifts_freeText _).bind (Nat.zero_le _) fun _ => over_pure _ (Nat.zero_le _)
  | none => exact over_pure _ (Nat.zero_le _)

theorem shifts_declareTop (name : String) (v : Value) :
    Shifts t may 1 (declareTop on name v) fun _ => 0 := by
  intro o
  unfold declareTop
  split
  · exact shifts_dropThen _ o
  · refine (shifts_handOver v).bind (Nat.le_refl 1) fun outcome => ?_
    cases outcome with
    | error e => exact over_pure _ (Nat.zero_le _)
    | ok r =>
      refine (shifts_declareGlobal _ _ _ _).bind (by simp [whenOkay]) fun status => ?_
      exact (shifts_confirm _ _).last (Nat.zero_le _) (by simp)

theorem shifts_arrayElement (view : View .array) (index : Nat) :
    Shifts t may 0 (arrayElement view index) (whenOkay 1) := by
  intro o
  unfold arrayElement
  split
  · split
    · exact (shifts_arrayGet _ _).bind (Nat.le_refl 0) fun given =>
        (shifts_accept _ given).last (Nat.le_refl 1) (by simp)
    · exact shifts_giveNull o
  · exact shifts_giveNull o

theorem shifts_arrayElements (view : View .array) (index count : Nat) :
    Shifts t may 0 (arrayElements view index count) fun _ => 0 := by
  induction count generalizing index with
  | zero =>
    rw [arrayElements]
    exact fun _ => over_pure _ (Nat.le_refl 0)
  | succ count ih =>
    intro o
    rw [arrayElements]
    refine (shifts_arrayElement view index).bind (Nat.le_refl 0) fun outcome => ?_
    cases outcome with
    | error e => exact over_pure _ (Nat.zero_le _)
    | ok v => exact (ih _).bind (Nat.zero_le _) fun rest => over_pure _ (Nat.zero_le _)

theorem shifts_viewLength (view : View .array) : Shifts t may 0 (viewLength view) fun _ => 0 := by
  unfold viewLength
  split
  · exact shifts_arrayLength _
  · exact fun _ => over_pure _ (Nat.le_refl 0)

theorem shifts_writeElement (view : View .array) (index : Nat) (v : Value) :
    Shifts t may 0 (writeElement view index v) fun _ => 0 := by
  intro o
  refine over_whenOk (fun id => ?_) (fun _ => Nat.le_refl 0) _
  split
  · refine over_whenOk (fun r => ?_) (fun _ => Nat.le_refl 0) _
    exact (shifts_arraySet _ _ _).bind (Nat.le_refl 0) fun _ => shifts_confirm _ _ o
  · exact over_pure _ (Nat.le_refl 0)

theorem shifts_appendElement (view : View .array) (v : Value) :
    Shifts t may 0 (appendElement view v) fun _ => 0 := by
  intro o
  refine over_whenOk (fun id => ?_) (fun _ => Nat.le_refl 0) _
  refine over_whenOk (fun r => ?_) (fun _ => Nat.le_refl 0) _
  exact (shifts_arrayPush _ _).bind (Nat.le_refl 0) fun _ => shifts_confirm _ _ o

theorem shifts_hasKey (view : View .object) (key : String) :
    Shifts t may 0 (hasKey view key) fun _ => 0 := by
  unfold hasKey
  split
  · exact shifts_objectHas _ _
  · exact fun _ => over_pure _ (Nat.le_refl 0)

theorem shifts_keyedValue (view : View .object) (key : String) :
    Shifts t may 0 (keyedValue view key) (whenOkay 1) := by
  intro o
  unfold keyedValue
  split
  · refine over_whenOk (fun bytes => ?_) (fun _ => Nat.le_refl 0) _
    exact (shifts_objectGet _ _).bind (Nat.le_refl 0) fun given =>
      (shifts_accept _ given).last (Nat.le_refl 1) (by simp)
  · exact shifts_giveNull o

theorem shifts_writeKeyed (view : View .object) (key : String) (v : Value) :
    Shifts t may 0 (writeKeyed view key v) fun _ => 0 := by
  intro o
  refine over_whenOk (fun id => ?_) (fun _ => Nat.le_refl 0) _
  refine over_whenOk (fun bytes => ?_) (fun _ => Nat.le_refl 0) _
  refine over_whenOk (fun r => ?_) (fun _ => Nat.le_refl 0) _
  exact (shifts_objectSet _ _ _).bind (Nat.le_refl 0) fun _ => shifts_confirm _ _ o

theorem shifts_ownKeys (view : View .object) : Shifts t may 0 (ownKeys view) fun _ => 0 := by
  intro o
  unfold ownKeys
  split
  · refine (shifts_objectKeys _).bind (Nat.le_refl 0) fun text => ?_
    exact (shifts_freeText _).bind (Nat.zero_le _) fun _ => over_pure _ (Nat.zero_le _)
  · exact over_pure _ (Nat.le_refl 0)

theorem shifts_callView (hc : on.call.Safe t) (view : View .function) (args : List Value)
    (receiver : Value) : Shifts t may 0 (callView on view args receiver) (whenOkay 1) := by
  intro o
  refine over_whenOk (fun id => ?_) (fun _ => Nat.le_refl 0) _
  refine over_whenOk (fun argv => ?_) (fun _ => Nat.le_refl 0) _
  split
  · exact over_pure _ (Nat.le_refl 0)
  · refine over_whenOk (fun this => ?_) (fun _ => Nat.le_refl 0) _
    exact (shifts_callFunction hc _ _ _ _ _).bind (Nat.le_refl 0) fun given =>
      (shifts_accept _ given).last (Nat.le_refl 1) (by simp)

theorem over_secure (s : Slot) :
    Spec t may o (Over 0 o) (change (·.secure o.length s)) fun _ => Over 1 o :=
  over_change (fun w => w.move_secureUnder t _ _ _) fun _ h => World.over_secureUnder h s

theorem over_installMethod (view : View .classDesc) (name : String) (method : View .function) :
    Spec t may o (Over 0 o) (installMethod o.length view name method) fun _ => Over 0 o := by
  refine over_whenTaken (fun id => ?_) (fun _ => rfl) _ _
  refine over_whenTaken (fun bytes => ?_) (fun _ => rfl) _ _
  refine over_whenTaken (fun f => ?_) (fun _ => rfl) _ _
  exact (over_secure _).bind fun _ => (shifts_addMethod _ _).bind (Nat.le_refl 1) fun _ =>
    shifts_confirm _ _ o

theorem shifts_settledResult (v : Value) : Shifts t may 0 (settledResult v) fun _ => 1 := by
  intro o
  unfold settledResult
  split
  · exact (shifts_taskResult _).bind (Nat.le_refl 0) fun given => shifts_takeOver _ o
  · exact (shifts_push _).bind (Nat.le_refl 0) fun _ => over_pure _ (by simp)

theorem shifts_settledTask (v : Value) : Shifts t may 0 (settledTask v) (whenOkay 1) := by
  intro o
  refine over_whenOk (fun r => ?_) (fun _ => Nat.le_refl 0) _
  exact (shifts_createTask _).bind (Nat.le_refl 0) fun _ => spec_top fun s =>
    over_pure _ (by simp [whenOkay])

theorem shifts_bindingCount : Shifts t may 0 bindingCount fun _ => 0 := by
  intro o
  exact Spec.surely (spec_world fun w => over_pure w.engine.bindings.size (Nat.le_refl 0)) _

/-! ## Requests -/

theorem shifts_installEmpty (p : Payload) (hp : p.slots = []) :
    Shifts t may 0 (change (·.install p)) fun _ => 1 :=
  shifts_change (fun w => w.move_installEmpty t p hp) fun _ _ h =>
    World.over_install (n := 0) (k := 0) h p

theorem shifts_create (p : Payload) (hp : p.slots = []) (kind : Kind) :
    Shifts t may 0 (change (·.install p) >>= fun _ => viewTop kind) fun _ => 1 :=
  fun _ => (shifts_installEmpty p hp).bind (Nat.le_refl 0) fun _ =>
    (shifts_viewTop kind).last (Nat.zero_le _) (by simp)

theorem shifts_createNamed (name : String) :
    Shifts t may 0 (whenOk (sentText name) fun bytes => do
      createClass true (some bytes)
      viewMade .classDesc) (whenOkay 1) :=
  fun _ => over_whenOk (fun _ => (shifts_createClass _ _).bind (Nat.le_refl 0) fun _ =>
    (shifts_viewMade _).last (Nat.le_refl 1) (by simp)) (fun _ => Nat.le_refl 0) _

theorem over_perform (hc : on.call.Safe t) (r : Request) :
    Spec t may o (Over 0 o) (perform on o.length r) fun _ => Over 0 o := by
  cases r with
  | clone v =>
    exact (shifts_share _).bind (Nat.le_refl 0) fun _ => spec_pure _ fun _ h => h.mono (Nat.zero_le _)
  | drop v =>
    exact over_change (fun w => w.move_discard t _ _) fun _ h => World.over_discard h _
  | keep v =>
    exact (over_secure _).bind fun _ => over_change (World.move_keep t) fun _ h =>
      World.over_keep h
  | retrieve kind n =>
    refine Shifts.bind (shifts_change (fun w => w.move_retrieve t n) fun _ _ h =>
      World.over_retrieve h n) (Nat.le_refl 0) fun _ => spec_top fun s => ?_
    exact spec_pure _ fun _ h => h.mono (Nat.zero_le _)
  | view kind v => exact (shifts_viewOf kind v).last (Nat.le_refl 0) (by simp)
  | run code => exact shifts_engineRun hc code o
  | bindingCount => exact shifts_bindingCount o
  | createClass name => exact (shifts_createNamed name).last (Nat.le_refl 0) (by simp)
  | createObject => exact (shifts_create _ rfl _).last (Nat.le_refl 0) (by simp)
  | createArray => exact (shifts_create _ rfl _).last (Nat.le_refl 0) (by simp)
  | createTask v => exact (shifts_settledTask v).last (Nat.le_refl 0) (by simp)
  | taskResult v => exact (shifts_settledResult v).last (Nat.le_refl 0) (by simp)
  | declareCopy name v =>
    exact (shifts_share _).bind (Nat.le_refl 0) fun _ => shifts_declareTop name v o
  | declareMove name v => exact (over_secure _).bind fun _ => shifts_declareTop name v o
  | arrayLength view => exact shifts_viewLength view o
  | arrayGet view index => exact (shifts_arrayElement view index).last (Nat.le_refl 0) (by simp)
  | arraySet view index v => exact shifts_writeElement view index v o
  | arrayPush view v => exact shifts_appendElement view v o
  | arrayToList view =>
    exact (shifts_viewLength view).bind (Nat.le_refl 0) fun n => shifts_arrayElements view 0 n o
  | objectHas view key => exact shifts_hasKey view key o
  | objectGet view key => exact (shifts_keyedValue view key).last (Nat.le_refl 0) (by simp)
  | objectSet view key v => exact shifts_writeKeyed view key v o
  | objectKeys view => exact shifts_ownKeys view o
  | call view args receiver =>
    exact (shifts_callView hc view args receiver).last (Nat.le_refl 0) (by simp)
  | addMethod view name method => exact over_installMethod view name method

/-! ## Closures -/

theorem over_bindClosure (label : Option String) (captured : List Value) (body : HostFunction) :
    Spec t may o (Over 0 o) (bindClosure o.length label captured body) fun _ => Over 0 o := by
  refine Spec.bind (Q := fun _ => Over captured.length o) ?_ fun _ => spec_world fun w => ?_
  · refine over_change (fun w => w.move_secureAll t _ _ _) fun w h => ?_
    exact (World.over_secureAll _ h).mono (by simp)
  · refine Spec.bind (Q := fun _ => Over 0 o) ?_ fun _ => over_pure _ (Nat.le_refl 0)
    refine Spec.surely (over_change (fun w => w.move_bind t _ _ _) fun w h => ?_) _
    exact World.over_bind _ (h.mono (by simp)) _ _

theorem over_registerClosure (name : String) (label : Option String) (captured : List Value)
    (body : HostFunction) :
    Spec t may o (Over 0 o) (registerClosure on o.length name label captured body)
      fun _ => Over 0 o := by
  refine over_whenTaken (fun bytes => ?_) (fun _ => rfl) _ _
  refine (over_bindClosure label captured body).bind fun i => ?_
  exact (shifts_registerNative _ _ _ _).bind (Nat.le_refl 0) fun _ => shifts_confirm _ _ o

theorem over_createClosure (label : Option String) (captured : List Value) (body : HostFunction) :
    Spec t may o (Over 0 o) (createClosure o.length label captured body) fun _ => Over 1 o := by
  refine (over_bindClosure label captured body).bind fun i => ?_
  exact (shifts_createNative _).bind (Nat.le_refl 0) fun _ =>
    (shifts_viewTop _).last (Nat.zero_le _) (by simp)

end Enclave.Act
