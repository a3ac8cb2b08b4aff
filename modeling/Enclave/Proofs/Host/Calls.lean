import Enclave.Proofs.Host.Delivery

/-! # Calls are exact

Every call of the runtime, and every call of the host's side that may turn something down, is either
carried out or leaves nothing behind. A reference that a call takes over is dropped in the one case and
has its new owner in the other.
-/
namespace Enclave

/-! ## Calls -/

/-- A call of an entry point, with whatever arguments, or of one of the host's own operations. What a
record or a method that is handed over owns is the newest entry; `out` is whether there is a place for the
record that is given out. -/
inductive Call where
  | run (running : Bool) (code : Option Text.Bytes)
  | createNative (f : Option NativeFunction)
  | register (running : Bool) (name : Option Text.Bytes) (f : Option NativeFunction)
  | declare (running : Bool) (name : Option Text.Bytes) (v : Option Record)
  | createClass (running : Bool) (name : Option Text.Bytes)
  | addMethod (handle : Option CellId) (name : Option Text.Bytes)
  | arrayLength (handle : Option CellId)
  | arrayGet (handle : Option CellId) (index : Int) (out : Bool)
  | arraySet (handle : Option CellId) (index : Int) (v : Option Record)
  | arrayPush (handle : Option CellId) (v : Option Record)
  | objectHas (handle : Option CellId) (key : Option Text.Bytes)
  | objectGet (handle : Option CellId) (key : Option Text.Bytes) (out : Bool)
  | objectSet (handle : Option CellId) (key : Option Text.Bytes) (v : Option Record)
  | callFunction (running : Bool) (handle : Option CellId) (argc : Int)
      (argv : Option (List Record)) (receiver : Option Record) (out : Bool)
  | createTask (v : Option Record)
  | taskResult (handle : Option CellId) (out : Bool)
  | request (r : Request)
  | registerClosure (name : String) (label : Option String) (captured : List Value)
      (body : HostFunction)
  | copyRecord (r : Record)
  | handOver (v : Value)
  | viewTaken (kind : Kind) (v : Value)

/-- Whether a call was carried out, and the record that it gave out, if it gives out one. -/
structure Verdict where
  accepted : Bool
  out : Option Record

namespace Act

variable {α ε : Type}

def judged (accepted : α → Bool) (out : α → Option Record) (x : Act α) : Act Verdict := do
  let a ← x
  pure ⟨accepted a, out a⟩

/-- The verdict on an entry that answers with a status. -/
def judgedStatus (x : Act Bool) : Act Verdict :=
  judged id (fun _ => none) x

/-- The verdict on an entry that gives out a record. Without a place for it, it is lost. -/
def judgedGiven (out : Bool) (x : Act Given) : Act Verdict := do
  let given ← x
  if out then pure ⟨given.status, some given.record⟩
  else do
    change World.forget
    pure ⟨given.status, none⟩

/-- The verdict on an entry that answers with a handle or null, which is the newest entry. -/
def judgedTop (x : Act Unit) : Act Verdict :=
  judged (fun s => s.cell?.isSome) (fun _ => none) (x >>= fun _ => top)

/-- The verdict on an operation of the host. -/
def judgedReply (x : Act (Except ε α)) : Act Verdict :=
  judged Except.isOk (fun _ => none) x

end Act

/-- A reply that reports no failure. -/
def Request.accepted : (r : Request) → r.Reply → Bool
  | .view _ _, reply => Except.isOk reply
  | .run _, reply => Except.isOk reply
  | .createClass _, reply => Except.isOk reply
  | .createTask _, reply => Except.isOk reply
  | .declareCopy _ _, reply => Except.isOk reply
  | .declareMove _ _, reply => Except.isOk reply
  | .arrayGet _ _, reply => Except.isOk reply
  | .arraySet _ _ _, reply => Except.isOk reply
  | .arrayPush _ _, reply => Except.isOk reply
  | .arrayToList _, reply => Except.isOk reply
  | .objectHas _ _, reply => reply
  | .objectGet _ _, reply => Except.isOk reply
  | .objectSet _ _ _, reply => Except.isOk reply
  | .call _ _ _, reply => Except.isOk reply
  | .addMethod _ _ _, reply => Except.isOk reply
  | _, _ => true

/-- How many references in hand a request takes over. -/
def Request.consumed (w : World) (base : Nat) : Request → CellId → Nat
  | .declareMove _ v => w.inHand base [v.slot]
  | .addMethod _ _ method => w.inHand base [method.value.slot]
  | _ => fun _ => 0

namespace Call

open Act in
/-- What a call does above the height `base` of the working stack. -/
def act (on : Surroundings) (base : Nat) : Call → Act Verdict
  | run running code => judged Option.isSome (fun _ => none) (runText on running code)
  | createNative f => judgedTop (Act.createNative f)
  | register running name f => judgedStatus (registerNative on.scope running name f)
  | declare running name v => judgedStatus (declareGlobal on.scope running name v)
  | createClass running name => judgedTop (Act.createClass running name)
  | addMethod handle name => judgedStatus (Act.addMethod handle name)
  | arrayLength handle => judged (· != 0) (fun _ => none) (Act.arrayLength handle)
  | arrayGet handle index out => judgedGiven out (Act.arrayGet handle index)
  | arraySet handle index v => judgedStatus (Act.arraySet handle index v)
  | arrayPush handle v => judgedStatus (Act.arrayPush handle v)
  | objectHas handle key => judgedStatus (Act.objectHas handle key)
  | objectGet handle key out => judgedGiven out (Act.objectGet handle key)
  | objectSet handle key v => judgedStatus (Act.objectSet handle key v)
  | callFunction running handle argc argv receiver out =>
    judgedGiven out (Act.callFunction on.call running handle argc argv receiver)
  | createTask v => judgedTop (Act.createTask v)
  | taskResult handle out => judgedGiven out (Act.taskResult handle)
  | request r => judged r.accepted (fun _ => none) (perform on base r)
  | registerClosure name label captured body =>
    judgedReply (Act.registerClosure on base name label captured body)
  | copyRecord r => judgedReply (Act.copyRecord r)
  | handOver v => judgedReply (Act.handOver v)
  | viewTaken kind v => judgedReply (Act.viewTaken kind v)

/-- How many references to each cell a call takes over. -/
def consumed (w : World) (base : Nat) : Call → CellId → Nat
  | declare _ _ _ => w.top.owns
  | addMethod _ _ => w.top.owns
  | request r => r.consumed w base
  | registerClosure _ _ captured _ => w.inHand base (captured.map Value.slot)
  | handOver _ => w.top.owns
  | viewTaken _ _ => w.top.owns
  | _ => fun _ => 0

/-- After a call that took something over and was carried out, what it took over is where it belongs: it
is the value of a global, a method of a class, captured by a closure, or still in hand for the view or
the record that it went into. -/
def Delivers (on : Surroundings) (base : Nat) (m m' : Machine) : Call → Prop
  | declare _ name v => ∃ bytes r, name = some bytes ∧ v = some r ∧
      (m.world.top.cell? = r.slot.cell? → (m.world.scope? on.scope).isSome = true →
        m.Yields m.world.top.owns m' ∧
          m'.world.global? on.scope (readText bytes) = some r.slot)
  | addMethod handle name => ∃ id bytes, handle = some id ∧ name = some bytes ∧
      m.Yields m.world.top.owns m' ∧
        ∀ p, m'.world.heap.payload? id = some p → ∃ label methods,
          p = .classDesc label methods ∧ methods.get? (readText bytes) = some m.world.top
  | request (.declareMove name v) => v.IsTagged → m.world.Alive v.slot →
      (m.world.scope? on.scope).isSome = true →
        m.Yields (m.world.inHand base [v.slot]) m' ∧
          m'.world.global? on.scope name = some v.slot
  | request (.addMethod view name method) => m.world.Alive method.value.slot →
      ∃ id, view.handle? = some id ∧ m.Yields (m.world.inHand base [method.value.slot]) m' ∧
        ∀ p, m'.world.heap.payload? id = some p → ∃ label methods,
          p = .classDesc label methods ∧ methods.get? name = some method.value.slot
  | registerClosure _ label captured body =>
      (∀ id, holders (captured.map Value.slot) id ≤ holders (m.world.above base 0) id) →
      (m.world.scope? on.scope).isSome = true →
        m.Yields (m.world.inHand base (captured.map Value.slot)) m' ∧
          m'.world.engine = { m.world.engine with
            bindings := m.world.engine.bindings.push ⟨label, captured, body⟩ }
  | handOver v => v.IsTagged → ∃ r, Act.handOver v m = .done (.ok r) m' ∧ r.slot = v.slot ∧
      (v.isHandle = true → m' = m)
  | viewTaken kind v => Act.viewTaken kind v m = .done (.ok ⟨v.handle?⟩) m' ∧ m' = m
  | _ => True

end Call

namespace Act

variable {α ε : Type} {t : Limits} {keep : List Slot} {m m' : Machine} {on : Surroundings}
  {verdict : Verdict}

theorem judged_done {accepted : α → Bool} {out : α → Option Record} {x : Act α}
    (h : judged accepted out x m = .done verdict m') :
    ∃ a, x m = .done a m' ∧ verdict = ⟨accepted a, out a⟩ := by
  obtain ⟨a, m₁, hrun, h⟩ := bind_done_iff.mp h
  cases h
  exact ⟨a, hrun, rfl⟩

theorem error_of_isOk {r : Except ε α} (h : r.isOk = false) : ∃ e, r = .error e := by
  cases r with
  | ok a => cases h
  | error e => exact ⟨e, rfl⟩

theorem Clean.forfeits {x : Act (Except ε α)} {r : Except ε α} (hx : Clean m x)
    (h : x m = .done r m') (hr : r.isOk = false) : m.Forfeits (fun _ => 0) m' := by
  obtain ⟨e, rfl⟩ := error_of_isOk hr
  exact (hx e m' h).clean

/-- A request that reports failure has given up what it was to take over, and nothing else. -/
theorem request_failed {r : Request} {reply : r.Reply} (hc : on.call.Safe t) (hg : m.Good t keep)
    (h : perform on keep.length r m = .done reply m') (hs : r.accepted reply = false) :
    m.Forfeits (r.consumed m.world keep.length) m' := by
  have hp := hg.sound.counted.proper
  cases r with
  | view kind v => exact (clean_viewOf hp kind v).forfeits h hs
  | run code => exact (clean_engineRun on code).forfeits h hs
  | createClass name => exact (clean_createNamed name).forfeits h hs
  | createTask v => exact (clean_settledTask v).forfeits h hs
  | declareCopy name v => exact (clean_declareCopy hp name v).forfeits h hs
  | declareMove name v =>
    obtain ⟨e, rfl⟩ := error_of_isOk hs
    exact declareMove_failed hg h
  | arrayGet view index => exact (clean_arrayElement hp view index).forfeits h hs
  | arraySet view index v => exact (clean_writeElement hp view index v).forfeits h hs
  | arrayPush view v => exact (clean_appendElement hp view v).forfeits h hs
  | arrayToList view => exact (clean_arrayToList hp view).forfeits h hs
  | objectHas view key => exact (undone_hasKey h).clean
  | objectGet view key => exact (clean_keyedValue hp view key).forfeits h hs
  | objectSet view key v => exact (clean_writeKeyed hp view key v).forfeits h hs
  | call view args receiver => exact (clean_callView hc hg view args receiver).forfeits h hs
  | addMethod view name method =>
    obtain ⟨e, rfl⟩ := error_of_isOk hs
    exact installMethod_failed hg h
  | clone | drop | keep | retrieve | bindingCount | createObject | createArray | taskResult
  | arrayLength | objectKeys => cases hs

/-! ## Verdicts -/

section Verdicts

variable {consumed : CellId → Nat} (hs : verdict.accepted = false)
include hs

theorem status_failed {x : Act Bool} (hx : x m = .done false m' → m.Forfeits consumed m')
    (h : judgedStatus x m = .done verdict m') :
    (∀ r, verdict.out = some r → r = .null) ∧ m.Forfeits consumed m' := by
  obtain ⟨status, hrun, rfl⟩ := judged_done h
  constructor
  · rintro r ⟨⟩
  · cases hs
    exact hx hrun

theorem reply_failed {x : Act (Except ε α)}
    (hx : ∀ e, x m = .done (.error e) m' → m.Forfeits consumed m')
    (h : judgedReply x m = .done verdict m') :
    (∀ r, verdict.out = some r → r = .null) ∧ m.Forfeits consumed m' := by
  obtain ⟨reply, hrun, rfl⟩ := judged_done h
  constructor
  · rintro r ⟨⟩
  · obtain ⟨e, rfl⟩ := error_of_isOk hs
    exact hx e hrun

/-- An entry that was to answer with a handle has answered with null. -/
theorem top_failed {x : Act Unit}
    (hx : x m = .done () m' → m'.world.top.cell? = none →
      m' = { m with world := m.world.push .null })
    (h : judgedTop x m = .done verdict m') :
    (∀ r, verdict.out = some r → r = .null) ∧ m.Forfeits (fun _ => 0) m' := by
  obtain ⟨s, hrun, rfl⟩ := judged_done h
  obtain ⟨u, m₁, hmade, htop⟩ := bind_done_iff.mp hrun
  cases htop
  constructor
  · rintro r ⟨⟩
  · have hnone : m'.world.top.cell? = none := by simpa using hs
    rw [hx hmade hnone]
    exact (undone_null m).clean

/-- A refusal gives out null. -/
theorem given_failed {x : Act Given} {out : Bool}
    (hx : ∀ given m', x m = .done given m' → given.status = false →
      given = ⟨false, .null⟩ ∧ m.Gains ⟨[.null], [], []⟩ m')
    (h : judgedGiven out x m = .done verdict m') :
    (∀ r, verdict.out = some r → r = .null) ∧ m.Forfeits (fun _ => 0) m' := by
  obtain ⟨given, m₁, hrun, h⟩ := bind_done_iff.mp h
  cases out with
  | true =>
    cases h
    obtain ⟨rfl, hgains⟩ := hx given _ hrun hs
    constructor
    · rintro r ⟨⟩
      rfl
    · exact (hgains.undone fun _ => rfl).clean
  | false =>
    cases h
    obtain ⟨-, hgains⟩ := hx given _ hrun hs
    constructor
    · rintro r ⟨⟩
    · exact hgains.undone_forget.clean

end Verdicts

/-- A call that reports failure has given up what was handed over, and nothing else. -/
theorem call_failed {c : Call} (hc : on.call.Safe t) (hg : m.Good t keep)
    (h : c.act on keep.length m = .done verdict m') (hs : verdict.accepted = false) :
    (∀ r, verdict.out = some r → r = .null) ∧
      m.Forfeits (c.consumed m.world keep.length) m' := by
  have hp := hg.sound.counted.proper
  cases c with
  | run running code =>
    obtain ⟨answer, hrun, rfl⟩ := judged_done h
    constructor
    · rintro r ⟨⟩
    · have hnone : answer = none := by simpa using hs
      subst hnone
      rw [runText_failed hrun]
      exact m.undone_refl.clean
  | createNative f => exact top_failed hs createNative_failed h
  | register running name f =>
    apply status_failed hs _ h
    intro h
    rw [registerNative_failed h]
    exact m.undone_refl.clean
  | declare running name v =>
    apply status_failed hs _ h
    intro h
    rcases declareGlobal_cases h with ⟨-, rfl⟩ | ⟨_, _, ⟨⟩, -⟩
    exact m.forfeits_drop
  | createClass running name => exact top_failed hs createClass_failed h
  | addMethod handle name =>
    apply status_failed hs _ h
    intro h
    rcases addMethod_cases h with ⟨-, rfl⟩ | ⟨_, _, _, _, ⟨⟩, -⟩
    exact m.forfeits_drop
  | arrayLength handle =>
    obtain ⟨n, hrun, rfl⟩ := judged_done h
    constructor
    · rintro r ⟨⟩
    · rw [(arrayLength_cases hrun).1]
      exact m.undone_refl.clean
  | arrayGet handle index out =>
    apply given_failed hs _ h
    intro given m' h hs
    exact giveFrom_failed hp (fun p s => Payload.mem_slots_of_element?) h hs
  | arraySet handle index v =>
    exact status_failed hs (fun h => (undone_arraySet hp h).clean) h
  | arrayPush handle v =>
    exact status_failed hs (fun h => (undone_storeInto hp h).clean) h
  | objectHas handle key =>
    apply status_failed hs _ h
    intro h
    obtain ⟨found, hfound⟩ := objectHas_eq handle key m
    cases hfound.symm.trans h
    exact m.undone_refl.clean
  | objectGet handle key out =>
    apply given_failed hs _ h
    intro given m' h hs
    cases key with
    | none =>
      cases h
      exact ⟨rfl, gains_null m⟩
    | some key => exact giveFrom_failed hp (fun p s => Payload.mem_slots_of_property?) h hs
  | objectSet handle key v =>
    exact status_failed hs (fun h => (undone_objectSet hp h).clean) h
  | callFunction running handle argc argv receiver out =>
    exact given_failed hs (fun given m' h hs => callFunction_failed hc hg h hs) h
  | createTask v => exact top_failed hs createTask_failed h
  | taskResult handle out =>
    apply given_failed hs _ h
    intro given m' h hs
    exact giveFrom_failed hp (fun p s => Payload.mem_slots_of_result?) h hs
  | request r =>
    obtain ⟨reply, hrun, rfl⟩ := judged_done h
    constructor
    · rintro r ⟨⟩
    · exact request_failed hc hg hrun hs
  | registerClosure name label captured body =>
    exact reply_failed hs (fun e h => registerClosure_failed hg h) h
  | copyRecord r => exact reply_failed hs (fun e h => (clean_copyRecord r e m' h).clean) h
  | handOver v =>
    apply reply_failed hs _ h
    intro e h
    rw [handOver_failed h]
    exact m.forfeits_drop
  | viewTaken kind v =>
    apply reply_failed hs _ h
    intro e h
    rw [viewTaken_failed h]
    exact m.forfeits_drop

theorem ok_of_isOk {r : Except ε α} (h : r.isOk = true) : ∃ a, r = .ok a := by
  cases r with
  | ok a => exact ⟨a, rfl⟩
  | error e => cases h

/-- What a call took over when it was carried out is where it belongs. -/
theorem call_delivers {c : Call} (hg : m.Good t keep)
    (h : c.act on keep.length m = .done verdict m') (hs : verdict.accepted = true) :
    c.Delivers on keep.length m m' := by
  cases c with
  | declare running name v =>
    obtain ⟨status, hrun, rfl⟩ := judged_done h
    cases hs
    exact declareGlobal_delivers hg.sound hrun
  | addMethod handle name =>
    obtain ⟨status, hrun, rfl⟩ := judged_done h
    cases hs
    exact addMethod_delivers hg.sound hrun
  | request r =>
    obtain ⟨reply, hrun, rfl⟩ := judged_done h
    cases r with
    | declareMove name v =>
      obtain ⟨⟨⟩, rfl⟩ := ok_of_isOk hs
      intro hv ha hscope
      exact declareMove_delivers hg hv ha hscope hrun
    | addMethod view name method =>
      obtain ⟨⟨⟩, rfl⟩ := ok_of_isOk hs
      intro ha
      exact installMethod_delivers hg ha hrun
    | _ => trivial
  | registerClosure name label captured body =>
    obtain ⟨reply, hrun, rfl⟩ := judged_done h
    obtain ⟨⟨⟩, rfl⟩ := ok_of_isOk hs
    intro hin hscope
    exact registerClosure_delivers hg hin hscope hrun
  | handOver v =>
    obtain ⟨reply, hrun, rfl⟩ := judged_done h
    obtain ⟨r, rfl⟩ := ok_of_isOk hs
    intro hv
    exact ⟨r, hrun, handOver_ok hv hrun⟩
  | viewTaken kind v =>
    obtain ⟨reply, hrun, rfl⟩ := judged_done h
    obtain ⟨view, rfl⟩ := ok_of_isOk hs
    obtain ⟨-, rfl, hsame⟩ := viewTaken_ok hrun
    exact ⟨hrun, hsame⟩
  | _ => trivial

end Act

open Act

/-- Every call is exact. One that reports failure gives out null if anything, and leaves the machine as it
was but for the references that it took over, which are dropped with all that follows. One that was carried
out has moved them to where they belong. -/
theorem calls_exact {t : Limits} {keep : List Slot} {m m' : Machine} {on : Surroundings} {c : Call}
    {verdict : Verdict} (hc : on.call.Safe t) (hg : m.Good t keep)
    (h : c.act on keep.length m = .done verdict m') :
    (verdict.accepted = false → (∀ r, verdict.out = some r → r = .null) ∧
      m.Forfeits (c.consumed m.world keep.length) m') ∧
    (verdict.accepted = true → c.Delivers on keep.length m m') := by
  constructor
  · intro hs
    exact call_failed hc hg h hs
  · intro hs
    exact call_delivers hg h hs

/-- An object is to become a global under a name that cannot be sent. Its only reference is dropped. -/
theorem calls_exact_unsendable :
    let m : Machine := ⟨(World.initial .default).install (.object [] none), []⟩
    let on : Surroundings := Budget.standard.surroundings 0
    let c : Call := .request (.declareMove "a\x00b" (.handle .object 0))
    c.consumed m.world 0 0 = 1 ∧
      ∃ m', c.act on 0 m = .done ⟨false, none⟩ m' ∧ m.Forfeits (c.consumed m.world 0) m' := by
  intro m on c
  have hmove : World.Move ⟨0, False, [], True⟩ (World.initial .default) m.world :=
    World.move_installEmpty _ _ _ rfl
  have hg : m.Good ⟨0, False, [], True⟩ [] :=
    (Machine.good_initial .default False True).move hmove List.nil_suffix
  have hname : sentText "a\x00b" = .error (.interiorZero "a\x00b") := by
    rw [sentText_eq, if_neg (by decide)]
  have hperform : perform on 0 (.declareMove "a\x00b" (.handle .object 0)) m =
      .done (.error (.interiorZero "a\x00b"))
        { m with world := (m.world.secure 0 (.cell 0)).drop } := by
    change declareTop on "a\x00b" (.handle .object 0)
      { m with world := m.world.secure 0 (.cell 0) } = _
    unfold declareTop
    rw [hname]
    rfl
  have hrun : c.act on 0 m = .done ⟨false, none⟩
      { m with world := (m.world.secure 0 (.cell 0)).drop } := (bind_done hperform).trans rfl
  have hsafe : on.call.Safe ⟨0, False, [], True⟩ := safe_callNative _ _ _
  obtain ⟨-, hforfeits⟩ := (calls_exact hsafe hg hrun).1 rfl
  exact ⟨rfl, _, hrun, hforfeits⟩

end Enclave
