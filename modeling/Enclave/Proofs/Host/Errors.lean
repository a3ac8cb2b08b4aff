import Enclave.Proofs.Host.Blocks
import Enclave.Proofs.Host.Erring

/-! # When the host's operations err

An operation errs because of its own input or not at all: a view without a cell, text that cannot be
sent, a name without a character, or an index out of reach. Whatever else the boundary could refuse
does not come up as long as the views are tagged with the kinds of their cells and nothing is being
accessed.
-/
namespace Enclave

open Act Text

namespace HostOperation

/-- The views that an operation goes through are tagged. -/
def IsTagged (w : World) : HostOperation → Prop
  | request (.arrayGet view _) => view.IsTagged w
  | request (.arraySet view _ _) => view.IsTagged w
  | request (.arrayPush view _) => view.IsTagged w
  | request (.arrayToList view) => view.IsTagged w
  | request (.objectGet view _) => view.IsTagged w
  | request (.objectSet view _ _) => view.IsTagged w
  | request (.call view _ _) => view.IsTagged w
  | request (.addMethod view _ method) => view.IsTagged w ∧ method.IsTagged w
  | _ => True

/-- What can be wrong with the input of an operation. -/
def IsBad (w : World) : HostOperation → Prop
  | request (.view kind v) => v.kind ≠ kind
  | request (.run code) => ¬ IsPlain code
  | request (.createClass name) => ¬ IsPlain name
  | request (.createTask v) => ¬ v.IsSendable
  | request (.declareCopy name v) => ¬ IsPlain name ∨ ¬ v.IsSendable
  | request (.declareMove name v) => ¬ IsPlain name ∨ ¬ v.IsSendable
  | request (.arraySet view index v) => view.handle? = none ∨ maxCount < index ∨
      ¬ v.IsSendable ∨ ∃ id elements, view.handle? = some id ∧
        w.heap.payload? id = some (.array elements) ∧ elements.size + maxElementGap < index
  | request (.arrayPush view v) => view.handle? = none ∨ ¬ v.IsSendable
  | request (.objectGet view key) => view.handle? ≠ none ∧ ¬ IsPlain key
  | request (.objectSet view key v) => view.handle? = none ∨ ¬ IsPlain key ∨ ¬ v.IsSendable
  | request (.call view args receiver) => view.handle? = none ∨ (∃ v ∈ args, ¬ v.IsSendable) ∨
      maxCount < args.length ∨ ¬ receiver.IsSendable
  | request (.addMethod view name method) => view.handle? = none ∨ ¬ IsPlain name ∨
      method.handle? = none
  | register name _ _ _ => name = "" ∨ ¬ IsPlain name
  | _ => False

/-- The operation runs code of a script or of the host. -/
def Runs : HostOperation → Prop
  | request (.run _) => True
  | request (.call _ _ _) => True
  | _ => False

/-- The reply is an error, or a view without a cell where one was to be made. That a key is not there is
no error. -/
def Fails : (o : HostOperation) → o.Result → Prop
  | request (.objectHas _ _), _ => False
  | request .createObject, reply => @View.handle? .object reply = none
  | request .createArray, reply => @View.handle? .array reply = none
  | request r, reply => r.accepted reply = false
  | register _ _ _ _, reply => Except.isOk (ε := HostError) (α := Unit) reply = false
  | createFunction _ _ _, reply => @View.handle? .function reply = none

end HostOperation

namespace Act

variable {m m' : Machine} {on : Surroundings}

/-! ## Containers and globals -/

section Open

variable (hp : m.world.heap.Proper) (hopen : m.world.IsOpen)
include hp hopen

/-- A cell of the kind takes what is lent to it, unless the exchange refuses. -/
theorem storeInto_status {kind : Kind} {id : CellId} (r : Record)
    (exchange : Payload → Slot → Option (Payload × Slot)) (bad : Prop)
    (hk : m.world.heap.kind? id = some kind)
    (hx : ∀ p s, m.world.heap.payload? id = some p → p.kind = kind →
      (exchange p s = none ↔ bad)) :
    ∃ status m', storeInto kind (some id) (some r) exchange m = .done status m' ∧
      (status = false ↔ bad) := by
  obtain ⟨p, hw, hkind⟩ := World.exists_writable hopen hp hk
  have hc : m.world.cellOf? kind (some id) = some id := by simp [World.cellOf?, hk]
  have hbad := hx p (m.world.found r.slot) (World.payload?_of_writable hw) hkind
  rw [storeInto_eq hc, hw, Option.bind_some]
  cases hf : exchange p (m.world.found r.slot) with
  | none => exact ⟨_, _, rfl, by simp [← hbad, hf]⟩
  | some exchanged => exact ⟨_, _, rfl, by simp [← hbad, hf]⟩

theorem errs_writeElement {view : View .array} {index : Nat} {v : Value}
    (hview : view.IsTagged m.world) :
    Errs True m (writeElement view index v) (view.handle? = none ∨ maxCount < index ∨
      ¬ v.IsSendable ∨ ∃ id elements, view.handle? = some id ∧
        m.world.heap.payload? id = some (.array elements) ∧
        elements.size + maxElementGap < index) := by
  refine errs_whenOk view.isOk_target fun id hid => ?_
  have hhandle := handle_of_target hid
  by_cases hi : index ≤ maxCount
  · rw [if_pos hi]
    refine (errs_whenOk v.isOk_lend fun r _ => ?_).congr
      (or_iff_right (Nat.not_lt.mpr hi)).symm
    rw [arraySet, if_neg (by omega), Int.toNat_natCast]
    obtain ⟨status, m', hrun, hstatus⟩ := storeInto_status hp hopen r (Payload.putElement index)
      (∃ id elements, view.handle? = some id ∧
        m.world.heap.payload? id = some (.array elements) ∧ elements.size + maxElementGap < index)
      (hview id hhandle) fun p s hpayload hkind => by
        obtain ⟨elements, rfl⟩ := Payload.array_of_kind hkind
        simp [putElement_eq_none, hhandle, hpayload]
    exact errs_confirm hrun hstatus
  · rw [if_neg hi]
    exact (errs_error rfl).congr (by simp [Nat.lt_of_not_le hi])

theorem errs_appendElement {view : View .array} {v : Value} (hview : view.IsTagged m.world) :
    Errs True m (appendElement view v) (view.handle? = none ∨ ¬ v.IsSendable) := by
  refine errs_whenOk view.isOk_target fun id hid => ?_
  refine (errs_whenOk v.isOk_lend fun r _ => ?_).congr (or_false _).to_iff
  obtain ⟨status, m', hrun, hstatus⟩ := storeInto_status hp hopen r Payload.pushElement False
    (hview id (handle_of_target hid)) fun p s _ hkind => by
      obtain ⟨elements, rfl⟩ := Payload.array_of_kind hkind
      simp [Payload.pushElement]
  exact errs_confirm hrun hstatus

theorem errs_writeKeyed {view : View .object} {key : String} {v : Value}
    (hview : view.IsTagged m.world) :
    Errs True m (writeKeyed view key v)
      (view.handle? = none ∨ ¬ IsPlain key ∨ ¬ v.IsSendable) := by
  refine errs_whenOk view.isOk_target fun id hid => ?_
  refine errs_whenOk (isOk_sentText key) fun bytes _ => ?_
  refine (errs_whenOk v.isOk_lend fun r _ => ?_).congr (or_false _).to_iff
  obtain ⟨status, m', hrun, hstatus⟩ := storeInto_status hp hopen r
    (Payload.putProperty (readText bytes)) False (hview id (handle_of_target hid))
    fun p s _ hkind => by
      obtain ⟨properties, link, rfl⟩ := Payload.object_of_kind hkind
      simp [Payload.putProperty]
  exact errs_confirm hrun hstatus

/-- A cell of the kind can be seen. -/
theorem visible_of_view {kind : Kind} {view : View kind} {id : CellId}
    (hview : view.IsTagged m.world) (hid : view.handle? = some id) :
    ∃ p, m.world.visible? id = some p ∧ p.kind = kind := by
  obtain ⟨p, hw, hkind⟩ := World.exists_writable hopen hp (hview id hid)
  exact ⟨p, World.visible?_of_writable hw, hkind⟩

theorem errs_arrayElement {view : View .array} {index : Nat} (hview : view.IsTagged m.world) :
    Errs True m (arrayElement view index) False := by
  obtain ⟨handle⟩ := view
  cases handle with
  | none => exact errs_ok rfl
  | some id =>
    by_cases hi : index ≤ maxCount
    · obtain ⟨p, hv, hkind⟩ := visible_of_view hp hopen hview rfl
      obtain ⟨elements, rfl⟩ := Payload.array_of_kind hkind
      exact Turns.errs (turns_arrayElement hp hv hi)
    · have hrun : arrayElement ⟨some id⟩ index = giveNull := if_neg hi
      rw [hrun]
      exact errs_ok rfl

theorem errs_arrayToList {view : View .array} (hview : view.IsTagged m.world) :
    Errs True m (viewLength view >>= arrayElements view 0) False := by
  obtain ⟨handle⟩ := view
  cases handle with
  | none => exact errs_ok rfl
  | some id =>
    obtain ⟨p, hv, hkind⟩ := visible_of_view hp hopen hview rfl
    obtain ⟨elements, rfl⟩ := Payload.array_of_kind hkind
    obtain ⟨n, hlength⟩ := arrayLength_eq (some id) m
    have hn : n ≤ maxCount := by
      rcases (arrayLength_cases hlength).2 with rfl | ⟨_, elements, -, -, rfl⟩
      · exact Nat.zero_le _
      · exact Nat.min_le_right _ _
    have hread : Turns m .none (arrayElements ⟨some id⟩ 0 n) _ :=
      turns_arrayElements hp hv 0 n (by omega)
    obtain ⟨_, _, m', hrun, -, rfl⟩ := hread.run
    exact errs_ok ((bind_done hlength).trans hrun)

theorem errs_keyedValue {view : View .object} {key : String} (hview : view.IsTagged m.world) :
    Errs True m (keyedValue view key) (view.handle? ≠ none ∧ ¬ IsPlain key) := by
  obtain ⟨handle⟩ := view
  cases handle with
  | none => exact (errs_ok rfl).congr (by simp)
  | some id =>
    by_cases hkey : IsPlain key
    · obtain ⟨p, hv, hkind⟩ := visible_of_view hp hopen hview rfl
      obtain ⟨properties, link, rfl⟩ := Payload.object_of_kind hkind
      exact (Turns.errs (turns_keyedValue hp hv hkey)).congr (by simp [hkey])
    · rw [keyedValue_of_not_plain id hkey]
      exact (errs_error rfl).congr (by simp [hkey])

omit hp in
/-- What is to become a global can always be given up for it. -/
theorem errs_declareTop {name : String} {v : Value} :
    Errs True m (declareTop on name v) (¬ IsPlain name ∨ ¬ v.IsSendable) := by
  unfold declareTop
  cases hname : sentText name with
  | error e =>
    have hbad := bad_of_error (isOk_sentText name) hname
    exact (errs_error rfl).congr (by simp [hbad])
  | ok bytes =>
    have hplain := fine_of_ok (isOk_sentText name) hname
    cases hlend : v.lend with
    | error e =>
      have hbad := bad_of_error v.isOk_lend hlend
      have hover : handOver v m = .done (.error e) { m with world := m.world.drop } := by
        rw [handOver, hlend]
        rfl
      refine Errs.congr (errs_error ((bind_done hover).trans rfl)) ?_
      exact iff_of_true trivial (.inr hbad)
    | ok r =>
      have hsend := fine_of_ok v.isOk_lend hlend
      obtain ⟨w, hclear, hw⟩ := clearScalar_open hopen v
      have hover : handOver v m = .done (.ok r) { m with world := w } := by
        rw [handOver, hlend]
        exact bind_done hclear
      have hdeclare : declare on.scope (readText bytes) { m with world := w.consumed r } = _ :=
        (declare_eq _ _ _).trans (if_pos (hw.consumed r _))
      have hrun : declareGlobal on.scope true (some bytes) (some r) { m with world := w } = _ :=
        (bind_done (consume_eq r _)).trans (bind_done hdeclare)
      exact (errs_ok ((bind_done hover).trans (bind_done hrun))).congr (by simp [hplain, hsend])

theorem errs_installMethod {base : Nat} {view : View .classDesc} {name : String}
    {method : View .function} (hview : view.IsTagged m.world) (hmethod : method.IsTagged m.world) :
    Errs True m (installMethod base view name method)
      (view.handle? = none ∨ ¬ IsPlain name ∨ method.handle? = none) := by
  refine errs_whenTaken view.isOk_target fun id hid => ?_
  refine errs_whenTaken (isOk_sentText name) fun bytes _ => ?_
  refine (errs_whenTaken method.isOk_target fun f hf => ?_).congr (or_false _).to_iff
  have hkinds := m.world.kind?_secure base (.cell f)
  have hsecured := hopen.change (.secure base (.cell f))
  obtain ⟨p, hwritable, -⟩ := World.exists_writable hopen hp (hview id (handle_of_target hid))
  have hwritable' : (m.world.secure base (.cell f)).writable? id = some p := by
    rw [World.writable?, if_pos (hsecured _), World.payload?_secure]
    exact World.payload?_of_writable hwritable
  have hfunction := hmethod f (handle_of_target hf)
  have htop : (m.world.secure base (.cell f)).top = .cell f := by
    apply m.world.top_secure
    rintro _ ⟨⟩
    exact Heap.isLive_of_kind? hfunction
  have hmethod : (m.world.secure base (.cell f)).cellOf? .function
      (m.world.secure base (.cell f)).top.cell? = some f := by
    simp [World.cellOf?, htop, hkinds, hfunction, Slot.cell?]
  have htarget : (m.world.secure base (.cell f)).cellOf? .classDesc (some id) = some id := by
    simp [World.cellOf?, hkinds, hview id (handle_of_target hid)]
  have hadd := addMethod_stored (m := { m with world := m.world.secure base (.cell f) }) hmethod
    htarget hwritable' bytes
  have hrun := bind_done (f := confirm .addMethod) hadd
  exact errs_ok hrun

omit hp in
theorem errs_registerClosure {base : Nat} {name : String} {label : Option String}
    {captured : List Value} {body : HostFunction} :
    Errs True m (registerClosure on base name label captured body) (name = "" ∨ ¬ IsPlain name) := by
  refine (errs_whenTaken (isOk_sentName name) fun bytes _ => ?_).congr (or_false _).to_iff
  obtain ⟨i, w, hbind, hw⟩ := bindClosure_open hopen base label captured body
  have hregister := registerNative_open (m := { m with world := w }) hw on.scope bytes
    (.closure (some i))
  have hrun := bind_done (f := confirm .register) hregister
  exact errs_ok ((bind_done hbind).trans hrun)

end Open

/-! ## Values, names and scripts -/

theorem errs_viewOf {kind : Kind} {v : Value} : Errs True m (viewOf kind v) (v.kind ≠ kind) := by
  have hshare : share v.slot m = .done () { m with world := m.world.share v.slot } := rfl
  by_cases hk : v.kind = kind
  · have htaken : viewTaken kind v { m with world := m.world.share v.slot } =
        .done (.ok ⟨v.handle?⟩) { m with world := m.world.share v.slot } := by
      rw [viewTaken, if_pos hk]
      rfl
    exact (errs_ok ((bind_done hshare).trans htaken)).congr (by simp [hk])
  · have htaken : viewTaken kind v { m with world := m.world.share v.slot } =
        .done (.error (.kindMismatch kind v.kind))
          { m with world := (m.world.share v.slot).drop } := by
      rw [viewTaken, if_neg hk]
      rfl
    exact (errs_error ((bind_done hshare).trans htaken)).congr (by simp [hk])

theorem errs_createNamed (on : Surroundings) (base : Nat) {name : String} :
    Errs True m (perform on base (.createClass name)) (¬ IsPlain name) := by
  refine (errs_whenOk (isOk_sentText name) fun bytes _ => ?_).congr (or_false _).to_iff
  have hmade : createClass true (some bytes) m =
      .done () { m with world := m.world.allocClass (readText bytes) } := rfl
  have hview : viewMade .classDesc { m with world := m.world.allocClass (readText bytes) } =
      .done (.ok ⟨some m.world.heap.next⟩)
        { m with world := m.world.allocClass (readText bytes) } := rfl
  exact errs_ok ((bind_done hmade).trans hview)

theorem errs_settledTask {v : Value} : Errs True m (settledTask v) (¬ v.IsSendable) := by
  refine (errs_whenOk v.isOk_lend fun r _ => ?_).congr (or_false _).to_iff
  have hmade : createTask (some r) m =
      .done () { m with world := (m.world.share r.slot).allocTask } := rfl
  exact errs_ok ((bind_done hmade).trans (bind_done (top_eq _)))

/-- A run that comes to an end has a text to show. -/
theorem runText_isSome {bytes : Text.Bytes} {answer : Option TextRef}
    (h : runText on true (some bytes) m = .done answer m') : answer.isSome = true := by
  obtain ⟨outcome, m₁, -, h⟩ := bind_done_iff.mp h
  cases outcome with
  | ok u =>
    obtain ⟨s, m₂, -, h⟩ := bind_done_iff.mp h
    obtain ⟨w, m₃, -, h⟩ := bind_done_iff.mp h
    obtain ⟨t, m₄, -, h⟩ := bind_done_iff.mp h
    obtain ⟨-, m₅, -, h⟩ := bind_done_iff.mp h
    cases h
    rfl
  | error fault =>
    obtain ⟨t, m₂, -, h⟩ := bind_done_iff.mp h
    cases h
    rfl

theorem errs_engineRun {code : String} : Errs False m (engineRun on code) (¬ IsPlain code) := by
  refine (errs_whenOk (isOk_sentText code) fun bytes _ => ⟨fun r m' h => ?_, ?_⟩).congr
    (or_false _).to_iff
  · obtain ⟨answer, m₁, hrun, h⟩ := bind_done_iff.mp h
    obtain ⟨t, rfl⟩ := Option.isSome_iff_exists.mp (runText_isSome hrun)
    obtain ⟨-, m₂, -, h⟩ := bind_done_iff.mp h
    cases h
    simp [Except.isOk, Except.toBool]
  · exact fun h => h.elim False.elim False.elim

/-! ## Calls -/

theorem isOk_mapM_lend (values : List Value) :
    (values.mapM Value.lend).isOk = false ↔ ∃ v ∈ values, ¬ v.IsSendable := by
  induction values with
  | nil => simp [Except.isOk, Except.toBool, pure, Except.pure]
  | cons v rest ih =>
    have hv := v.isOk_lend
    rw [List.mapM_cons, List.exists_mem_cons_iff, ← ih, ← hv]
    cases v.lend with
    | error e => simp [Except.isOk, Except.toBool, bind, Except.bind]
    | ok r =>
      cases rest.mapM Value.lend <;>
        simp [Except.isOk, Except.toBool, bind, Except.bind, pure, Except.pure]

theorem length_of_mapM_lend {values : List Value} {records : List Record}
    (h : values.mapM Value.lend = .ok records) : records.length = values.length := by
  induction values generalizing records with
  | nil =>
    cases h
    rfl
  | cons v rest ih =>
    rw [List.mapM_cons] at h
    cases hv : v.lend with
    | error e =>
      rw [hv] at h
      cases h
    | ok r =>
      cases hrest : rest.mapM Value.lend with
      | error e =>
        rw [hv, hrest] at h
        cases h
      | ok more =>
        rw [hv, hrest] at h
        cases h
        exact congrArg (· + 1) (ih hrest)

/-- The call of a function that can be seen does not end with a fault. -/
theorem callSlot_unraised {call : Caller} {receiver : Option Slot} {args : List Slot}
    {f : NativeFunction} {id : CellId} {fault : Fault} (hc : Caller.Faultless call)
    (hv : m.world.visible? id = some (.function f)) :
    callSlot call (.cell id) receiver args m ≠ .raised fault m' := by
  have hrun : callSlot call (.cell id) receiver args m = invoke call (some id) f receiver args m :=
    bind_done (nativeOf_eq hv)
  rw [hrun]
  exact (faultless_look fun w => (hc _ _ _ _ _).bind fun r => (silent_adoptReturn r).faultless) _ _ _

/-- So the entry point answers a call that it comes to make. -/
theorem callFunction_accepted {call : Caller} {f : NativeFunction} {id : CellId}
    {records : List Record} {this : Option Record} {given : Given} (hc : Caller.Faultless call)
    (hp : m.world.heap.Proper) (hv : m.world.visible? id = some (.function f))
    (h : callFunction call true (some id) records.length (some records) this m =
      .done given m') : given.status = true := by
  have hid : m.world.cellOf? .function (some id) = some id := World.cellOf?_of_visible hp hv
  obtain ⟨args, receivers, m₁, m₂, hargs, hreceivers, hended⟩ := callFunction_run hid (by simp) h
  have hgains := (gains_borrowAll (gains_borrowAll (.refl m) hargs) hreceivers).share (.cell id)
  have htop : (m₂.world.share (.cell id)).top = .cell id := by
    rw [World.top_of_stack hgains.stack, World.found_of_alive (World.alive_of_visible hv)]
  rw [htop] at hended
  rcases hended with hstatus | ⟨-, fault, m₃, hraised, -⟩
  · exact hstatus
  · exact absurd hraised (callSlot_unraised hc ((hgains.visible? id).trans hv))

theorem isOk_lentReceiver (receiver : Value) :
    (if receiver.isNull then .ok none else receiver.lend.map some :
      Except HostError (Option Record)).isOk = false ↔ ¬ receiver.IsSendable := by
  rw [← receiver.isOk_lend]
  by_cases hnull : receiver.isNull = true
  · have hreceiver : receiver = .null := by
      cases receiver with
      | scalar c => cases c <;> first | rfl | cases hnull
      | handle kind x => cases hnull
    rw [if_pos hnull, hreceiver]
    rfl
  · rw [if_neg hnull]
    cases receiver.lend <;> rfl

theorem errs_callLent {view : View .function} {id : CellId} (records : List Record)
    (this : Option Record) (hc : Caller.Faultless on.call) (hp : m.world.heap.Proper)
    (hopen : m.world.IsOpen) (hview : view.IsTagged m.world) (hid : view.handle? = some id) :
    Errs False m (callFunction on.call true (some id) records.length (some records) this >>=
      accept .functionCall) False := by
  refine ⟨fun r m' h => ?_, fun h => h.elim False.elim False.elim⟩
  obtain ⟨given, m₁, hcall, h⟩ := bind_done_iff.mp h
  obtain ⟨p, hv, hkind⟩ := visible_of_view hp hopen hview hid
  obtain ⟨f, rfl⟩ := Payload.function_of_kind hkind
  have hstatus := callFunction_accepted hc hp hv hcall
  obtain ⟨v, m₂, -, h⟩ := bind_done_iff.mp h
  rw [if_pos hstatus] at h
  cases h
  simp [Except.isOk, Except.toBool]

theorem errs_callView {view : View .function} {args : List Value} {receiver : Value}
    (hc : Caller.Faultless on.call) (hp : m.world.heap.Proper) (hopen : m.world.IsOpen)
    (hview : view.IsTagged m.world) :
    Errs False m (callView on view args receiver) (view.handle? = none ∨
      (∃ v ∈ args, ¬ v.IsSendable) ∨ maxCount < args.length ∨ ¬ receiver.IsSendable) := by
  refine errs_whenOk view.isOk_target fun id hid => ?_
  refine errs_whenOk (isOk_mapM_lend args) fun records hrecords => ?_
  rw [← length_of_mapM_lend hrecords]
  by_cases hcount : maxCount < records.length
  · rw [if_pos hcount]
    exact (errs_error rfl).congr (by simp [hcount])
  · rw [if_neg hcount]
    have hlent := errs_whenOk (isOk_lentReceiver receiver) fun this _ =>
      errs_callLent records this hc hp hopen hview (handle_of_target hid)
    exact hlent.congr (by simp [hcount])

/-! ## Operations that cannot err -/

theorem giveFrom_answers (kind : Kind) (handle : Option CellId) {find : Payload → Option Slot}
    (hp : m.world.heap.Proper) (hfind : ∀ p s, find p = some s → s ∈ p.slots) :
    ∃ given m', giveFrom kind handle find m = .done given m' := by
  cases hseen : (m.world.cellOf? kind handle).bind m.world.visible? with
  | none =>
    have hturns : Turns m .none (giveFrom kind handle find) _ := turns_giveFromRefused hseen
    obtain ⟨given, _, m', hrun, -⟩ := hturns.run
    exact ⟨given, m', hrun⟩
  | some p =>
    obtain ⟨id, hc, hv⟩ := Option.bind_eq_some_iff.mp hseen
    have hturns : Turns m .none (giveFrom kind handle find) _ := turns_giveFrom hp hc hv (hfind p)
    obtain ⟨given, _, m', hrun, -⟩ := hturns.run
    exact ⟨given, m', hrun⟩

theorem settledResult_answers (hp : m.world.heap.Proper) (v : Value) :
    ∃ result m', settledResult v m = .done result m' := by
  unfold settledResult
  split
  · rename_i id
    obtain ⟨given, m₁, hrun⟩ := giveFrom_answers .task (some id) hp
      fun p s => Payload.mem_slots_of_result?
    obtain ⟨result, m₂, htake, -⟩ := silent_takeOver given.record m₁
    exact ⟨result, m₂, (bind_done hrun).trans htake⟩
  · exact ⟨_, _, rfl⟩

theorem viewLength_answers (view : View .array) (m : Machine) :
    ∃ n m', viewLength view m = .done n m' := by
  obtain ⟨handle⟩ := view
  cases handle with
  | none => exact ⟨_, _, rfl⟩
  | some id =>
    obtain ⟨n, hrun⟩ := arrayLength_eq (some id) m
    exact ⟨n, m, hrun⟩

theorem hasKey_answers (view : View .object) (key : String) (m : Machine) :
    ∃ found m', hasKey view key m = .done found m' := by
  obtain ⟨handle⟩ := view
  unfold hasKey
  cases handle with
  | none => exact ⟨_, _, rfl⟩
  | some id =>
    cases sentText key with
    | error e => exact ⟨_, _, rfl⟩
    | ok bytes =>
      obtain ⟨found, hrun⟩ := objectHas_eq (some id) (some bytes) m
      exact ⟨found, m, hrun⟩

theorem ownKeys_answers (view : View .object) (m : Machine) :
    ∃ keys m', ownKeys view m = .done keys m' := by
  obtain ⟨handle⟩ := view
  cases handle with
  | none => exact ⟨_, _, rfl⟩
  | some id =>
    have hlist : ∃ t m', objectKeys (some id) m = .done t m' := by
      unfold objectKeys
      rw [bind_done (world_eq m)]
      cases m.world.cellOf? .object (some id) with
      | none => exact ⟨_, _, rfl⟩
      | some x => exact ⟨_, _, bind_done (read_eq x m)⟩
    obtain ⟨t, m₁, hrun⟩ := hlist
    obtain ⟨u, m₂, hfree, -⟩ := silent_freeText t.block m₁
    exact ⟨_, m₂, (bind_done hrun).trans (bind_done hfree)⟩

theorem bindingCount_answers (hopen : m.world.IsOpen) :
    ∃ n m', bindingCount m = .done n m' := by
  have hallowed : m.world.allows ⟨.bindings, false⟩ = true := by
    have hall := hopen .bindings
    simp only [World.canWrite, Bool.or_eq_true, Bool.not_eq_true', List.all_eq_true] at hall
    simp only [World.allows, World.canRead, Bool.false_eq_true, if_false, Bool.or_eq_true,
      Bool.not_eq_true', List.all_eq_true]
    exact hall.imp_right fun h g hg => .inl (h g hg)
  have hrun : bindingCount m = guarded ⟨.bindings, false⟩
      (world >>= fun w => pure w.engine.bindings.size) m := by
    change (if m.world.allows ⟨.bindings, false⟩ then guarded _ _ else stop _) m = _
    rw [if_pos hallowed]
  exact ⟨_, _, hrun⟩

end Act

namespace HostOperation

open Act

variable {m : Machine} (on : Surroundings) (base : Nat)

/-- An operation errs exactly if its input is bad, and it comes to an answer unless it runs code. -/
theorem fails_iff (hp : m.world.heap.Proper) (hopen : m.world.IsOpen)
    (hc : Caller.Faultless on.call) (o : HostOperation) (ht : o.IsTagged m.world) :
    (∀ reply m', o.act on base m = .done reply m' → (o.Fails reply ↔ o.IsBad m.world)) ∧
      (¬ o.Runs ∨ o.IsBad m.world → ∃ reply m', o.act on base m = .done reply m') := by
  have herrs : ∀ {α : Type} {x : Act (Except HostError α)} {bad : Prop}, Errs True m x bad →
      (∀ r m', x m = .done r m' → (r.isOk = false ↔ bad)) ∧
        (¬ False ∨ bad → ∃ r m', x m = .done r m') :=
    fun h => ⟨h.1, fun _ => h.2 (.inl trivial)⟩
  have hruns : ∀ {α : Type} {x : Act (Except HostError α)} {bad : Prop}, Errs False m x bad →
      (∀ r m', x m = .done r m' → (r.isOk = false ↔ bad)) ∧
        (¬ True ∨ bad → ∃ r m', x m = .done r m') :=
    fun h => ⟨h.1, fun hbad => h.2 (.inr (hbad.resolve_left (not_not_intro trivial)))⟩
  have htotal : ∀ {α : Type} {x : Act α}, (∃ r m', x m = .done r m') →
      (∀ r m', x m = .done r m' → (true = false ↔ False)) ∧
        (¬ False ∨ False → ∃ r m', x m = .done r m') :=
    fun h => ⟨fun _ _ _ => by simp, fun _ => h⟩
  have hviews : ∀ {kind : Kind} {x : Act (View kind)} {m' : Machine} (view : View kind),
      x m = .done view m' → view.handle?.isSome = true →
      (∀ r m', x m = .done r m' → (r.handle? = none ↔ False)) ∧
        (¬ False ∨ False → ∃ r m', x m = .done r m') := by
    intro kind x m' view hrun hview
    refine ⟨fun r m₁ h => ?_, fun _ => ⟨_, _, hrun⟩⟩
    cases hrun.symm.trans h
    refine iff_false_intro fun hnone => ?_
    rw [hnone] at hview
    cases hview
  cases o with
  | register name label captured body => exact herrs (errs_registerClosure hopen)
  | createFunction label captured body =>
    obtain ⟨i, w, hrun, -⟩ := bindClosure_open hopen base label captured body
    have hmade : createClosure base label captured body m = .done ⟨some w.heap.next⟩
        { m with world := w.allocFunction (.closure (some i)) } := bind_done hrun
    exact hviews _ hmade rfl
  | request r =>
    cases r with
    | clone v => exact htotal ⟨_, _, rfl⟩
    | drop v => exact htotal ⟨_, _, rfl⟩
    | keep v => exact htotal ⟨_, _, rfl⟩
    | retrieve kind n => exact htotal ⟨_, _, rfl⟩
    | view kind v => exact herrs errs_viewOf
    | run code => exact hruns errs_engineRun
    | bindingCount => exact htotal (bindingCount_answers hopen)
    | createClass name => exact herrs (errs_createNamed on base)
    | createObject => exact hviews ⟨some m.world.heap.next⟩ rfl rfl
    | createArray => exact hviews ⟨some m.world.heap.next⟩ rfl rfl
    | createTask v => exact herrs errs_settledTask
    | taskResult v => exact htotal (settledResult_answers hp v)
    | declareCopy name v =>
      exact herrs (errs_declareTop (m := { m with world := m.world.share v.slot })
        (hopen.change (.share v.slot)))
    | declareMove name v =>
      exact herrs (errs_declareTop (m := { m with world := m.world.secure base v.slot })
        (hopen.change (.secure base v.slot)))
    | arrayLength view => exact htotal (viewLength_answers view m)
    | arrayGet view index => exact herrs (errs_arrayElement hp hopen ht)
    | arraySet view index v => exact herrs (errs_writeElement hp hopen ht)
    | arrayPush view v => exact herrs (errs_appendElement hp hopen ht)
    | arrayToList view => exact herrs (errs_arrayToList hp hopen ht)
    | objectHas view key =>
      exact ⟨fun _ _ _ => Iff.rfl, fun _ => hasKey_answers view key m⟩
    | objectGet view key => exact herrs (errs_keyedValue hp hopen ht)
    | objectSet view key v => exact herrs (errs_writeKeyed hp hopen ht)
    | objectKeys view => exact htotal (ownKeys_answers view m)
    | call view args receiver => exact hruns (errs_callView hc hp hopen ht)
    | addMethod view name method => exact herrs (errs_installMethod hp hopen ht.1 ht.2)

theorem faultless_act (o : HostOperation) : (o.act on base).Faultless := by
  cases o with
  | request r => exact faultless_perform base r
  | register name label captured body => exact faultless_registerClosure base name label captured body
  | createFunction label captured body => exact faultless_createClosure base label captured body

end HostOperation
end Enclave
