import Enclave.Proofs.Host.Closures

/-! # Acts without faults

Faults belong to scripts. Whatever state the machine is in, no operation of a host and no native function
ends with one: a run turns it into a message, and a call into an answer. By induction on host code for
one call, and on the depth for calls inside one another.
-/
namespace Enclave.Act

variable {α β : Type} {x refused : Act α} {m : Machine} {on : Surroundings} {call : Caller}

/-- The act never ends with a fault. -/
def Faultless (x : Act α) : Prop :=
  ∀ m fault m', x m ≠ .raised fault m'

/-- No call ends with a fault. -/
def Caller.Faultless (call : Caller) : Prop :=
  ∀ callee f argc argv receiver, (call callee f argc argv receiver).Faultless

/-! ## Rules -/

theorem Silent.faultless (hx : Silent x) : x.Faultless := by
  intro m fault m' h
  obtain ⟨a, m₁, hrun, -⟩ := hx m
  cases hrun.symm.trans h

theorem faultless_pure (a : α) : (pure a : Act α).Faultless :=
  (silent_pure a).faultless

theorem faultless_change (f : World → World) : (change f).Faultless :=
  (silent_change f).faultless

theorem faultless_push (v : Scalar) : (push v).Faultless :=
  faultless_change _

theorem faultless_share (s : Slot) : (share s).Faultless :=
  faultless_change _

theorem faultless_drop : drop.Faultless :=
  faultless_change _

theorem faultless_stop (why : Stop) : (stop why : Act α).Faultless := by
  intro m fault m' h
  cases h

theorem faultless_note (event : Event) : (note event).Faultless := by
  intro m fault m' h
  cases h

theorem Faultless.bind {f : α → Act β} (hx : x.Faultless) (hf : ∀ a, (f a).Faultless) :
    (x >>= f).Faultless := by
  intro m fault m' h
  rcases bind_raised_iff.mp h with h | ⟨a, m₁, -, h⟩
  · exact hx m fault m' h
  · exact hf a m₁ fault m' h

theorem Faultless.map (hx : x.Faultless) (c : α → β) : (c <$> x).Faultless :=
  hx.bind fun a => faultless_pure (c a)

theorem faultless_look {f : World → Act β} (hf : ∀ w, (f w).Faultless) :
    (world >>= f).Faultless :=
  silent_world.faultless.bind hf

theorem faultless_top {f : Slot → Act β} (hf : ∀ s, (f s).Faultless) : (top >>= f).Faultless :=
  silent_top.faultless.bind hf

theorem faultless_height {f : Nat → Act β} (hf : ∀ n, (f n).Faultless) :
    (height >>= f).Faultless :=
  Faultless.bind (faultless_look fun _ => faultless_pure _) hf

theorem Faultless.accessing (hx : x.Faultless) (hr : refused.Faultless) (g : Guard) :
    (accessing g x refused).Faultless := by
  refine faultless_look fun w => ?_
  split
  · intro m fault m' h
    unfold guarded at h
    cases hrun : x { m with world := m.world.guard g } with
    | done a m₁ | stopped halt =>
      rw [hrun] at h
      cases h
    | raised fault' m₁ => exact hx _ _ _ hrun
  · exact hr

theorem Faultless.surely (hx : x.Faultless) (g : Guard) : (surely g x).Faultless :=
  hx.accessing (faultless_stop _) g

theorem faultless_attempt (x : Act α) : (attempt x).Faultless := by
  intro m fault m' h
  unfold Act.attempt at h
  cases hrun : x m <;> rw [hrun] at h <;> cases h

/-- Faults of what is tried become results. -/
theorem faultless_recover (x : Act α) : (recover x).Faultless := by
  refine faultless_height fun base => (faultless_attempt x).bind fun outcome => ?_
  cases outcome with
  | ok a => exact faultless_pure _
  | error fault => exact (faultless_change _).bind fun _ => faultless_pure _

theorem faultless_reading {x : Payload → Act α} (hx : ∀ p, (x p).Faultless)
    (hr : refused.Faultless) (id : CellId) : (reading id x refused).Faultless := by
  refine Faultless.accessing (faultless_look fun w => ?_) hr _
  split
  · exact hx _
  · exact hr

theorem faultless_writing {x : Payload → Act α} (hx : ∀ p, (x p).Faultless)
    (hr : refused.Faultless) (id : CellId) : (writing id x refused).Faultless := by
  refine Faultless.accessing (faultless_look fun w => ?_) hr _
  split
  · exact hx _
  · exact hr

theorem faultless_whenOk {check : Except HostError α} {next : α → Act (Except HostError β)}
    (hn : ∀ a, (next a).Faultless) : (whenOk check next).Faultless := by
  cases check with
  | ok a => exact hn a
  | error e => exact faultless_pure _

theorem faultless_whenTaken {check : Except HostError α} {next : α → Act (Except HostError β)}
    (hn : ∀ a, (next a).Faultless) (base : Nat) (taken : List Slot) :
    (whenTaken base taken check next).Faultless := by
  cases check with
  | ok a => exact hn a
  | error e => exact (faultless_change _).bind fun _ => faultless_pure _

/-! ## Entry points -/

theorem faultless_giveNothing (status : Bool) : (giveNothing status).Faultless :=
  (faultless_change _).bind fun _ => faultless_pure _

theorem faultless_giveFrom (kind : Kind) (handle : Option CellId) (find : Payload → Option Slot) :
    (giveFrom kind handle find).Faultless := by
  refine faultless_look fun w => ?_
  split
  · refine Faultless.bind ?_ fun seen => ?_
    · exact faultless_reading (fun p => (faultless_share _).bind fun _ => faultless_pure _)
        (faultless_pure _) _
    · cases seen with
      | true => exact silent_giveTop.faultless
      | false => exact faultless_giveNothing _
  · exact faultless_giveNothing _

theorem faultless_storeInto (kind : Kind) (handle : Option CellId) (v : Option Record)
    (exchange : Payload → Slot → Option (Payload × Slot)) :
    (storeInto kind handle v exchange).Faultless := by
  refine faultless_look fun w => ?_
  split
  · refine (faultless_share _).bind fun _ => faultless_top fun s => Faultless.bind ?_ fun stored =>
      faultless_drop.bind fun _ => faultless_pure _
    refine faultless_writing (fun p => ?_) (faultless_pure _) _
    split
    · exact (faultless_change _).bind fun _ => faultless_pure _
    · exact faultless_pure _
  · exact faultless_pure _

theorem faultless_runText (running : Bool) (code : Option Text.Bytes) :
    (runText on running code).Faultless := by
  unfold runText
  cases code with
  | none => exact faultless_pure _
  | some bytes =>
    cases running with
    | false => exact faultless_pure _
    | true =>
      refine (faultless_recover _).bind fun outcome => ?_
      cases outcome with
      | ok u =>
        exact faultless_top fun s => faultless_look fun w =>
          (silent_allocText _).faultless.bind fun t => (faultless_change _).bind fun _ =>
            faultless_pure _
      | error fault => exact (silent_allocText _).faultless.map _

theorem faultless_declare (scope : ScopeId) (name : String) : (declare scope name).Faultless :=
  ((faultless_change _).surely _).bind fun _ => faultless_change _

theorem faultless_createNative (f : Option NativeFunction) : (createNative f).Faultless := by
  cases f with
  | some f => exact faultless_change fun w => w.allocFunction f
  | none => exact faultless_push _

theorem faultless_registerNative (scope : ScopeId) (running : Bool) (name : Option Text.Bytes)
    (f : Option NativeFunction) : (registerNative scope running name f).Faultless := by
  unfold registerNative
  cases name with
  | none => exact faultless_pure _
  | some name =>
    cases f with
    | none => exact faultless_pure _
    | some f =>
      cases running with
      | false => exact faultless_pure _
      | true =>
        exact (faultless_createNative _).bind fun _ => (faultless_declare _ _).bind fun _ =>
          faultless_pure _

theorem faultless_declareGlobal (scope : ScopeId) (running : Bool) (name : Option Text.Bytes)
    (v : Option Record) : (declareGlobal scope running name v).Faultless := by
  have hrefuse : (drop >>= fun _ => pure false : Act Bool).Faultless :=
    (faultless_change _).bind fun _ => faultless_pure _
  unfold declareGlobal
  cases v with
  | none => exact hrefuse
  | some r =>
    refine (silent_consume r).faultless.bind fun _ => ?_
    cases name with
    | none => exact hrefuse
    | some name =>
      cases running with
      | false => exact hrefuse
      | true => exact (faultless_declare _ _).bind fun _ => faultless_pure _

theorem faultless_createClass (running : Bool) (name : Option Text.Bytes) :
    (createClass running name).Faultless := by
  cases name with
  | none => exact faultless_push _
  | some name =>
    cases running with
    | false => exact faultless_push _
    | true => exact faultless_change fun w => w.allocClass (readText name)

theorem faultless_addMethod (handle : Option CellId) (name : Option Text.Bytes) :
    (addMethod handle name).Faultless := by
  refine faultless_top fun s => faultless_look fun w => ?_
  split
  · refine Faultless.bind ?_ fun _ => (faultless_change _).bind fun _ => faultless_pure _
    exact faultless_writing (fun p => (faultless_change _).bind fun _ => faultless_pure _)
      (faultless_pure _) _
  · exact (faultless_change _).bind fun _ => faultless_pure _

theorem faultless_arrayLength (handle : Option CellId) : (arrayLength handle).Faultless := by
  refine faultless_look fun w => ?_
  split
  · exact faultless_reading (fun p => by cases p <;> exact faultless_pure _) (faultless_pure _) _
  · exact faultless_pure _

theorem faultless_objectHas (handle : Option CellId) (key : Option Text.Bytes) :
    (objectHas handle key).Faultless := by
  refine faultless_look fun w => ?_
  split
  · exact faultless_reading (fun _ => faultless_pure _) (faultless_pure _) _
  · exact faultless_pure _

theorem faultless_objectKeys (handle : Option CellId) : (objectKeys handle).Faultless := by
  have hwrite := fun keys => (silent_allocText (Text.KeyList.write keys)).faultless
  refine faultless_look fun w => ?_
  dsimp only
  split
  · exact (faultless_reading (fun _ => faultless_pure _) (faultless_pure _) _).bind hwrite
  · exact (faultless_pure _).bind hwrite

theorem faultless_borrowAll (records : List Record) : (borrowAll records).Faultless := by
  induction records with
  | nil => exact faultless_pure _
  | cons r rest ih =>
    exact (faultless_share r.slot).bind fun _ => faultless_top fun s => ih.bind fun _ =>
      faultless_pure _

/-- The entry point for calls turns a fault into a status. -/
theorem faultless_callFunction (running : Bool) (handle : Option CellId) (argc : Int)
    (argv : Option (List Record)) (receiver : Option Record) :
    (callFunction call running handle argc argv receiver).Faultless := by
  refine faultless_look fun w => ?_
  split
  · split
    · exact faultless_giveNothing _
    · refine faultless_height fun base => (faultless_borrowAll _).bind fun args =>
        (faultless_borrowAll _).bind fun receiver => (faultless_change _).bind fun _ =>
        faultless_top fun callee => (faultless_recover _).bind fun outcome => ?_
      cases outcome with
      | ok u =>
        exact silent_giveTop.faultless.bind fun _ => (faultless_change _).bind fun _ =>
          faultless_pure _
      | error fault => exact (faultless_change _).bind fun _ => faultless_giveNothing _
  · exact faultless_giveNothing _

/-! ## Operations -/

theorem faultless_confirm (operation : Operation) (status : Bool) :
    (confirm operation status).Faultless :=
  faultless_pure _

theorem faultless_giveNull : giveNull.Faultless :=
  (faultless_change _).bind fun _ => faultless_pure _

theorem faultless_viewTop (kind : Kind) : (viewTop kind).Faultless :=
  faultless_top fun _ => faultless_pure _

theorem faultless_viewOf (kind : Kind) (v : Value) : (viewOf kind v).Faultless := by
  refine (faultless_change _).bind fun _ => ?_
  unfold viewTaken
  split
  · exact faultless_pure _
  · exact (faultless_change _).bind fun _ => faultless_pure _

theorem faultless_handOver (v : Value) : (handOver v).Faultless := by
  unfold handOver
  cases v.lend with
  | error e => exact (faultless_change _).bind fun _ => faultless_pure _
  | ok r =>
    refine Faultless.bind ?_ fun _ => faultless_pure _
    cases v with
    | scalar c => exact (faultless_change _).bind fun _ => faultless_change _
    | handle kind id => exact faultless_pure _

theorem faultless_declareTop (name : String) (v : Value) : (declareTop on name v).Faultless := by
  unfold declareTop
  cases sentText name with
  | error e => exact (faultless_change _).bind fun _ => faultless_pure _
  | ok bytes =>
    refine (faultless_handOver v).bind fun handed => ?_
    cases handed with
    | error e => exact faultless_pure _
    | ok r => exact (faultless_declareGlobal _ _ _ _).bind fun _ => faultless_confirm _ _

theorem faultless_arrayElement (view : View .array) (index : Nat) :
    (arrayElement view index).Faultless := by
  unfold arrayElement
  split
  · split
    · exact (faultless_giveFrom _ _ _).bind fun given => (silent_accept _ given).faultless
    · exact faultless_giveNull
  · exact faultless_giveNull

theorem faultless_arrayElements (view : View .array) (index count : Nat) :
    (arrayElements view index count).Faultless := by
  induction count generalizing index with
  | zero => exact faultless_pure _
  | succ count ih =>
    refine (faultless_arrayElement view index).bind fun element => ?_
    cases element with
    | error e => exact faultless_pure _
    | ok v => exact (ih _).bind fun _ => faultless_pure _

theorem faultless_viewLength (view : View .array) : (viewLength view).Faultless := by
  unfold viewLength
  split
  · exact faultless_arrayLength _
  · exact faultless_pure _

theorem faultless_perform (base : Nat) (r : Request) : (perform on base r).Faultless := by
  cases r with
  | clone v => exact (faultless_change _).bind fun _ => faultless_pure _
  | drop v => exact faultless_change fun w => w.discard base v.slot
  | keep v => exact (faultless_change _).bind fun _ => faultless_change _
  | retrieve kind n => exact (faultless_change _).bind fun _ => faultless_top fun _ => faultless_pure _
  | view kind v => exact faultless_viewOf kind v
  | run code =>
    refine faultless_whenOk fun bytes => (faultless_runText _ _).bind fun answer => ?_
    cases answer with
    | none => exact faultless_pure _
    | some t => exact (silent_freeText _).faultless.bind fun _ => faultless_pure _
  | bindingCount => exact (faultless_look fun _ => faultless_pure _).surely _
  | createClass name =>
    refine faultless_whenOk fun bytes => (faultless_createClass _ _).bind fun _ =>
      (faultless_viewTop _).bind fun view => ?_
    cases view.handle? with
    | some id => exact faultless_pure _
    | none => exact (faultless_change _).bind fun _ => faultless_pure _
  | createObject | createArray => exact (faultless_change _).bind fun _ => faultless_viewTop _
  | createTask v =>
    refine faultless_whenOk fun r => Faultless.bind ?_ fun _ => faultless_top fun _ =>
      faultless_pure _
    exact (faultless_share r.slot).bind fun _ => faultless_change World.allocTask
  | taskResult v =>
    cases v with
    | scalar c => exact (faultless_change _).bind fun _ => faultless_pure _
    | handle kind id =>
      cases kind with
      | task => exact (faultless_giveFrom _ _ _).bind fun _ => (silent_takeOver _).faultless
      | _ => exact (faultless_change _).bind fun _ => faultless_pure _
  | declareCopy name v | declareMove name v =>
    exact (faultless_change _).bind fun _ => faultless_declareTop name v
  | arrayLength view => exact faultless_viewLength view
  | arrayGet view index => exact faultless_arrayElement view index
  | arraySet view index v =>
    refine faultless_whenOk fun id => ?_
    split
    · refine faultless_whenOk fun r => Faultless.bind ?_ fun _ => faultless_confirm _ _
      unfold arraySet
      split
      · exact faultless_pure _
      · exact faultless_storeInto _ _ _ _
    · exact faultless_pure _
  | arrayPush view v =>
    exact faultless_whenOk fun id => faultless_whenOk fun r =>
      (faultless_storeInto _ _ _ _).bind fun _ => faultless_confirm _ _
  | arrayToList view =>
    exact (faultless_viewLength view).bind fun n => faultless_arrayElements view 0 n
  | objectHas view key =>
    change (hasKey view key).Faultless
    unfold hasKey
    split
    · exact faultless_objectHas _ _
    · exact faultless_pure _
  | objectGet view key =>
    change (keyedValue view key).Faultless
    unfold keyedValue
    split
    · exact faultless_whenOk fun bytes => (faultless_giveFrom _ _ _).bind fun given =>
        (silent_accept _ given).faultless
    · exact faultless_giveNull
  | objectSet view key v =>
    exact faultless_whenOk fun id => faultless_whenOk fun bytes => faultless_whenOk fun r =>
      (faultless_storeInto _ _ _ _).bind fun _ => faultless_confirm _ _
  | objectKeys view =>
    change (ownKeys view).Faultless
    unfold ownKeys
    split
    · exact (faultless_objectKeys _).bind fun t => (silent_freeText _).faultless.bind fun _ =>
        faultless_pure _
    · exact faultless_pure _
  | call view args receiver =>
    refine faultless_whenOk fun id => faultless_whenOk fun argv => ?_
    split
    · exact faultless_pure _
    · exact faultless_whenOk fun this => (faultless_callFunction _ _ _ _ _).bind fun given =>
        (silent_accept _ given).faultless
  | addMethod view name method =>
    exact faultless_whenTaken (fun id => faultless_whenTaken (fun bytes => faultless_whenTaken
      (fun f => (faultless_change _).bind fun _ => (faultless_addMethod _ _).bind fun _ =>
        faultless_confirm _ _) _ _) _ _) _ _

theorem faultless_bindClosure (base : Nat) (label : Option String) (captured : List Value)
    (body : HostFunction) : (bindClosure base label captured body).Faultless :=
  (faultless_change _).bind fun _ => faultless_look fun _ =>
    ((faultless_change _).surely _).bind fun _ => faultless_pure _

theorem faultless_registerClosure (base : Nat) (name : String) (label : Option String)
    (captured : List Value) (body : HostFunction) :
    (registerClosure on base name label captured body).Faultless :=
  faultless_whenTaken (fun _ => (faultless_bindClosure _ _ _ _).bind fun _ =>
    (faultless_registerNative _ _ _ _).bind fun _ => faultless_confirm _ _) _ _

theorem faultless_createClosure (base : Nat) (label : Option String) (captured : List Value)
    (body : HostFunction) : (createClosure base label captured body).Faultless :=
  (faultless_bindClosure _ _ _ _).bind fun _ => (faultless_createNative _).bind fun _ =>
    faultless_viewTop _

/-! ## Host code -/

theorem faultless_runCode (base : Nat) (code : HostCode) : (runCode on base code).Faultless := by
  induction code with
  | finish v =>
    rw [runCode]
    exact (faultless_change _).bind fun _ => faultless_pure _
  | fail e | panic message =>
    rw [runCode]
    exact faultless_pure _
  | request r next ih =>
    rw [runCode]
    exact (faultless_perform base r).bind fun reply => (faultless_note _).bind fun _ => ih reply
  | register name label captured body next _ ih =>
    rw [runCode]
    exact (faultless_registerClosure base name label captured body).bind fun reply =>
      (faultless_note _).bind fun _ => ih reply
  | createFunction label captured body next _ ih =>
    rw [runCode]
    exact (faultless_createClosure base label captured body).bind fun reply =>
      (faultless_note _).bind fun _ => ih reply

theorem faultless_copyRecord (r : Record) : (copyRecord r).Faultless := by
  unfold copyRecord
  split
  · exact (faultless_change _).bind fun _ => faultless_pure _
  · exact faultless_pure _

theorem faultless_copyArguments (records : List Record) (index : Nat) :
    (copyArguments index records).Faultless := by
  induction records generalizing index with
  | nil => exact faultless_pure _
  | cons r rest ih =>
    rw [copyArguments]
    refine (faultless_copyRecord r).bind fun copied => ?_
    cases copied with
    | error e => exact faultless_pure _
    | ok v => exact (ih _).bind fun more => faultless_pure _

theorem faultless_runBinding (base : Nat) (config : Config) (b : Binding) (p : Passed) :
    (runBinding on base config b p).Faultless := by
  have hcollect : (collectArguments config.maxArguments p).Faultless := by
    unfold collectArguments
    dsimp only
    repeat' split
    all_goals first | exact faultless_pure _ | exact faultless_copyArguments _ _
  have hreceiver : (copyReceiver p).Faultless := by
    unfold copyReceiver
    split
    · exact faultless_pure _
    · refine (faultless_copyRecord _).bind fun copied => ?_
      cases copied <;> exact faultless_pure _
  refine hcollect.bind fun collected => ?_
  cases collected with
  | error e => exact faultless_pure _
  | ok args =>
    refine hreceiver.bind fun copied => ?_
    cases copied with
    | error e => exact faultless_pure _
    | ok receiver => exact (faultless_note _).bind fun _ => faultless_runCode base _

/-! ## Calls -/

theorem faultless_callClosure (place : Option Nat) (p : Passed) :
    (callClosure on place p).Faultless := by
  refine faultless_look fun w => ?_
  split
  · exact (faultless_change _).bind fun _ => faultless_pure _
  · refine faultless_height fun base => (faultless_runBinding base _ _ p).bind fun outcome => ?_
    cases outcome with
    | ok v => exact (faultless_change _).bind fun _ => (silent_handBack v).faultless
    | error message =>
      exact (faultless_change _).bind fun _ => (faultless_change _).bind fun _ =>
        (silent_handBack _).faultless

theorem faultless_endow (r : Record) : (endow r).Faultless := by
  unfold endow
  split
  · exact faultless_look fun w => (faultless_change _).bind fun _ => (faultless_change _).bind
      fun _ => faultless_pure _
  · split <;> exact (faultless_change _).bind fun _ => faultless_pure _
  · exact (faultless_change _).bind fun _ => faultless_pure _

theorem faultless_callForeign (f : Foreign) (p : Passed) : (callForeign on f p).Faultless := by
  cases f with
  | sum => exact (faultless_change _).bind fun _ => faultless_pure _
  | codes =>
    exact (silent_allocText _).faultless.bind fun _ => (faultless_change _).bind fun _ =>
      faultless_pure _
  | fixed r => exact faultless_endow r
  | code body =>
    refine faultless_height fun base => (faultless_runCode base _).bind fun outcome => ?_
    cases outcome with
    | ok v => exact (faultless_change _).bind fun _ => (silent_handBack v).faultless
    | error message =>
      exact (faultless_change _).bind fun _ => (faultless_change _).bind fun _ => faultless_pure _

/-- Native functions answer, however deep their calls are nested. -/
theorem faultless_callNative (patience depth : Nat) :
    Caller.Faultless (callNative patience depth) := by
  intro callee f argc argv receiver
  cases depth with
  | zero => exact faultless_stop _
  | succ depth =>
    refine (faultless_note _).bind fun _ => Faultless.bind (faultless_look fun w => ?_) fun r =>
      (faultless_note _).bind fun _ => faultless_pure _
    cases f with
    | closure place => exact faultless_callClosure place _
    | foreign f => exact faultless_callForeign f _

end Enclave.Act
