import Enclave.Proofs.Boundary.Failure
import Enclave.Proofs.Host.Perform
import Enclave.Proofs.Host.Reads

/-! # Requests that come to nothing

A request that ends with an error leaves the machine as it was. The few that take a value over have
dropped what was in hand for it, whether they found out at once or only from the runtime.
-/
namespace Enclave

namespace Machine

variable {t : Limits} {keep : List Slot} {m : Machine}

theorem forfeits_discardAll (hg : m.Good t keep) (slots : List Slot) :
    m.Forfeits (m.world.inHand keep.length slots)
      { m with world := m.world.discardAll keep.length slots } := by
  obtain ⟨xs, hxs⟩ := hg.keeps
  obtain ⟨dropped, left, hdiscard, hsplit⟩ := World.discardAll_above slots hxs.symm rfl
  rw [hdiscard]
  have hhand : ∀ id, holders (left ++ keep) id + holders dropped id = holders m.world.stack id := by
    intro id
    have hwhole := hsplit.whole id
    rw [← hxs, holders_append, holders_append]
    omega
  apply (undone_without hhand).forfeits
  intro id
  have hs : m.world.stack = [] ++ (xs ++ keep) := hxs.symm
  have habove : m.world.above keep.length 0 = xs := World.above_eq hs rfl
  rw [World.inHand, habove]
  exact hsplit.shared id

/-- A slot that was secured for a call which then dropped it. -/
theorem forfeits_secure (hg : m.Good t keep) (s : Slot) :
    m.Forfeits (m.world.inHand keep.length [s])
      { m with world := (m.world.secure keep.length s).drop } := by
  rcases m.world.drop_secure keep.length s with hdrop | ⟨hsecure, hnone⟩
  · rw [hdrop]
    exact forfeits_discardAll hg [s]
  · rw [hsecure]
    have hgains := ((Gains.refl m).share s).drop hg.sound.counted.proper
    exact (hgains.undone fun _ => rfl).forfeits fun id => (hnone id).symm

end Machine

namespace Act

variable {α β ε : Type} {t : Limits} {keep : List Slot} {m m' : Machine} {on : Surroundings}
  {e : HostError} {v : Value} {name : String}

/-- If the act ends with an error, nothing has been given up. -/
def Clean (m : Machine) (x : Act (Except ε α)) : Prop :=
  ∀ e m', x m = .done (.error e) m' → m.Undone [] m'

theorem clean_pure (r : Except ε α) : Clean m (pure r) := by
  intro e m' h
  cases h
  exact m.undone_refl

theorem clean_whenOk {check : Except HostError α} {next : α → Act (Except HostError β)}
    (hx : ∀ a, Clean m (next a)) : Clean m (whenOk check next) := by
  cases check with
  | ok a => exact hx a
  | error e => exact clean_pure _

/-! ## Answers of entry points -/

theorem clean_confirm {x : Act Bool} (hx : ∀ m', x m = .done false m' → m.Undone [] m')
    (operation : Operation) : Clean m (x >>= confirm operation) := by
  intro e m' h
  obtain ⟨status, m₁, hrun, h⟩ := bind_done_iff.mp h
  cases status with
  | true => cases h
  | false =>
    cases h
    exact hx m' hrun

theorem clean_accept (hp : m.world.heap.Proper) {x : Act Given}
    (hx : ∀ given m', x m = .done given m' → given.status = false →
      given = ⟨false, .null⟩ ∧ m.Gains ⟨[.null], [], []⟩ m') (operation : Operation) :
    Clean m (x >>= accept operation) := by
  intro e m' h
  obtain ⟨given, m₁, hrun, h⟩ := bind_done_iff.mp h
  cases hs : given.status with
  | true =>
    obtain ⟨v, m₂, -, h⟩ := bind_done_iff.mp h
    rw [if_pos hs] at h
    cases h
  | false =>
    obtain ⟨rfl, hgains⟩ := hx given m₁ hrun hs
    have hback : Turns m ⟨[.null], [], []⟩ (accept operation ⟨false, .null⟩) fun v k =>
        v = .error (.rejected operation) ∧ k = ⟨[], [], []⟩ := turns_acceptRefusal hp operation
    obtain ⟨_, _, m₂, hrun', hgains', rfl, rfl⟩ := hback m₁ hgains
    rw [hrun'] at h
    cases h
    exact hgains'.undone fun _ => rfl

/-! ## Values and views -/

theorem clean_copyRecord (r : Record) : Clean m (copyRecord r) := by
  intro e m' h
  unfold copyRecord at h
  cases hv : Value.ofRecord r with
  | ok v =>
    rw [hv] at h
    cases h
  | error e' =>
    rw [hv] at h
    cases h
    exact m.undone_refl

theorem handOver_failed (h : handOver v m = .done (.error e) m') :
    m' = { m with world := m.world.drop } := by
  unfold handOver at h
  cases hr : v.lend with
  | ok r =>
    rw [hr] at h
    obtain ⟨-, m₁, -, h⟩ := bind_done_iff.mp h
    cases h
  | error e' =>
    rw [hr] at h
    cases h
    rfl

theorem viewTaken_failed {kind : Kind} (h : viewTaken kind v m = .done (.error e) m') :
    m' = { m with world := m.world.drop } := by
  unfold viewTaken at h
  by_cases hk : v.kind = kind
  · rw [if_pos hk] at h
    cases h
  · rw [if_neg hk] at h
    cases h
    rfl

theorem clean_viewOf (hp : m.world.heap.Proper) (kind : Kind) (v : Value) :
    Clean m (viewOf kind v) := by
  intro e m' h
  have hrun : viewOf kind v m = viewTaken kind v { m with world := m.world.share v.slot } := rfl
  rw [hrun] at h
  rw [viewTaken_failed h]
  have hgains := ((Machine.Gains.refl m).share v.slot).drop hp
  exact hgains.undone fun _ => rfl

/-! ## Scripts, globals and classes -/

theorem clean_engineRun (on : Surroundings) (code : String) : Clean m (engineRun on code) := by
  apply clean_whenOk
  intro bytes e m' h
  obtain ⟨answer, m₁, hrun, h⟩ := bind_done_iff.mp h
  cases answer with
  | some text =>
    obtain ⟨-, m₂, -, h⟩ := bind_done_iff.mp h
    cases h
  | none =>
    cases h
    rw [runText_failed hrun]
    exact m.undone_refl

/-- The value that was to become a global is dropped. -/
theorem declareTop_failed (h : declareTop on name v m = .done (.error e) m') :
    m' = { m with world := m.world.drop } := by
  unfold declareTop at h
  cases hn : sentText name with
  | error e' =>
    rw [hn] at h
    cases h
    rfl
  | ok bytes =>
    rw [hn] at h
    obtain ⟨outcome, m₁, hover, h⟩ := bind_done_iff.mp h
    cases outcome with
    | error e' =>
      cases h
      exact handOver_failed hover
    | ok r =>
      obtain ⟨status, m₂, hdeclare, h⟩ := bind_done_iff.mp h
      obtain ⟨-, m₃, -, hdeclare⟩ := bind_done_iff.mp hdeclare
      obtain ⟨-, m₄, -, hdeclare⟩ := bind_done_iff.mp hdeclare
      cases hdeclare
      cases h

theorem clean_createNamed (name : String) :
    Clean m (whenOk (sentText name) fun bytes => do
      createClass true (some bytes)
      viewMade .classDesc) := by
  apply clean_whenOk
  intro bytes e m' h
  cases h

theorem handle_of_target {kind : Kind} {view : View kind} {id : CellId}
    (h : view.target = .ok id) : view.handle? = some id := by
  unfold View.target at h
  cases hid : view.handle? with
  | none =>
    rw [hid] at h
    cases h
  | some x =>
    rw [hid] at h
    cases h
    rfl

theorem slot_of_target {kind : Kind} {view : View kind} {id : CellId} (h : view.target = .ok id) :
    view.value.slot = .cell id := by
  rw [View.value, handle_of_target h]
  rfl

theorem forfeits_whenTaken {check : Except HostError α} {next : α → Act (Except HostError β)}
    {slots : List Slot} (hg : m.Good t keep)
    (hx : ∀ a e m', check = .ok a → next a m = .done (.error e) m' →
      m.Forfeits (m.world.inHand keep.length slots) m')
    (h : whenTaken keep.length slots check next m = .done (.error e) m') :
    m.Forfeits (m.world.inHand keep.length slots) m' := by
  cases check with
  | ok a => exact hx a e m' rfl h
  | error e' =>
    cases h
    exact Machine.forfeits_discardAll hg slots

/-- The method that was to go into the class is dropped. -/
theorem installMethod_failed {view : View .classDesc} {method : View .function}
    (hg : m.Good t keep)
    (h : installMethod keep.length view name method m = .done (.error e) m') :
    m.Forfeits (m.world.inHand keep.length [method.value.slot]) m' := by
  apply forfeits_whenTaken hg _ h
  intro id e m' _ h
  apply forfeits_whenTaken hg _ h
  intro bytes e m' _ h
  apply forfeits_whenTaken hg _ h
  intro f e m' hf h
  have hslot : method.value.slot = .cell f := slot_of_target hf
  rw [hslot]
  obtain ⟨u, m₁, hsecure, h⟩ := bind_done_iff.mp h
  cases hsecure
  obtain ⟨status, m₂, hadd, h⟩ := bind_done_iff.mp h
  rcases addMethod_cases hadd with ⟨rfl, rfl⟩ | ⟨_, _, _, _, rfl, -⟩
  · cases h
    exact Machine.forfeits_secure hg (.cell f)
  · cases h

/-- A closure is refused for its name, or it is bound and the function made for it gets the name. -/
theorem registerClosure_cases {base : Nat} {label : Option String} {captured : List Value}
    {body : HostFunction} {reply : Except HostError Unit}
    (h : registerClosure on base name label captured body m = .done reply m') :
    (∃ e, reply = .error e ∧
      m' = { m with world := m.world.discardAll base (captured.map Value.slot) }) ∨
    ∃ bytes place m₁, sentName name = .ok bytes ∧ reply = .ok () ∧
      bindClosure base label captured body m = .done place m₁ ∧
      m' = { m₁ with world :=
        ((m₁.world.allocFunction (.closure (some place))).exchangeGlobal on.scope
          (readText bytes)).drop } := by
  unfold registerClosure at h
  cases hname : sentName name with
  | error e =>
    rw [hname] at h
    obtain ⟨_, m₁, hdiscard, h⟩ := bind_done_iff.mp h
    cases hdiscard
    cases h
    exact .inl ⟨e, rfl, rfl⟩
  | ok bytes =>
    rw [hname] at h
    obtain ⟨place, m₁, hbind, h⟩ := bind_done_iff.mp h
    obtain ⟨status, m₂, hregister, h⟩ := bind_done_iff.mp h
    obtain ⟨_, m₃, hcreate, hregister⟩ := bind_done_iff.mp hregister
    cases hcreate
    obtain ⟨_, m₄, hdeclare, hregister⟩ := bind_done_iff.mp hregister
    cases hregister
    cases h
    obtain ⟨-, rfl⟩ := declare_done hdeclare
    exact .inr ⟨bytes, place, m₁, rfl, rfl, hbind, rfl⟩

/-- Only the name of a closure is ever refused, and then what it captured is dropped. -/
theorem registerClosure_failed {label : Option String} {captured : List Value} {body : HostFunction}
    (hg : m.Good t keep)
    (h : registerClosure on keep.length name label captured body m = .done (.error e) m') :
    m.Forfeits (m.world.inHand keep.length (captured.map Value.slot)) m' := by
  rcases registerClosure_cases h with ⟨_, -, rfl⟩ | ⟨_, _, _, -, hreply, -⟩
  · exact Machine.forfeits_discardAll hg _
  · cases hreply

/-! ## Containers -/

theorem clean_giveNull : Clean m giveNull := by
  intro e m' h
  cases h

theorem clean_arrayElement (hp : m.world.heap.Proper) (view : View .array) (index : Nat) :
    Clean m (arrayElement view index) := by
  unfold arrayElement
  split
  · split
    · apply clean_accept hp
      intro given m' h hs
      exact giveFrom_failed hp (fun p s => Payload.mem_slots_of_element?) h hs
    · exact clean_giveNull
  · exact clean_giveNull

/-- A list of all elements is never refused: the length of what cannot be seen is zero. -/
theorem clean_arrayToList (hp : m.world.heap.Proper) (view : View .array) :
    Clean m (viewLength view >>= arrayElements view 0) := by
  intro e m' h
  obtain ⟨handle⟩ := view
  obtain ⟨n, m₁, hlength, h⟩ := bind_done_iff.mp h
  cases handle with
  | none =>
    cases hlength
    cases h
  | some id =>
    -- A locked array has length zero, so no element is read and none is refused.
    obtain ⟨rfl, hn⟩ := arrayLength_cases hlength
    rcases hn with rfl | ⟨_, elements, ⟨⟩, hv, rfl⟩
    · cases h
    · have hread : Turns m₁ .none (arrayElements ⟨some id⟩ 0 (min elements.size maxCount)) _ :=
        turns_arrayElements hp hv 0 _ (by omega)
      obtain ⟨_, _, m₂, hrun, -, rfl⟩ := hread.run
      rw [hrun] at h
      cases h

theorem clean_keyedValue (hp : m.world.heap.Proper) (view : View .object) (key : String) :
    Clean m (keyedValue view key) := by
  unfold keyedValue
  split
  · apply clean_whenOk
    intro bytes
    apply clean_accept hp
    intro given m' h hs
    exact giveFrom_failed hp (fun p s => Payload.mem_slots_of_property?) h hs
  · exact clean_giveNull

/-- A key that is not found has not changed anything. -/
theorem undone_hasKey {view : View .object} {key : String} {found : Bool}
    (h : hasKey view key m = .done found m') : m.Undone [] m' := by
  unfold hasKey at h
  cases hid : view.handle? with
  | none =>
    rw [hid] at h
    cases h
    exact m.undone_refl
  | some id =>
    rw [hid] at h
    cases hkey : sentText key with
    | error e =>
      rw [hkey] at h
      cases h
      exact m.undone_refl
    | ok bytes =>
      rw [hkey] at h
      obtain ⟨found', hrun⟩ := objectHas_eq (some id) (some bytes) m
      have hsame := hrun.symm.trans h
      cases hsame
      exact m.undone_refl

theorem clean_writeElement (hp : m.world.heap.Proper) (view : View .array) (index : Nat)
    (v : Value) : Clean m (writeElement view index v) := by
  apply clean_whenOk
  intro id
  split
  · apply clean_whenOk
    intro r
    exact clean_confirm (fun m' => undone_arraySet hp) _
  · exact clean_pure _

theorem clean_appendElement (hp : m.world.heap.Proper) (view : View .array) (v : Value) :
    Clean m (appendElement view v) := by
  apply clean_whenOk
  intro id
  apply clean_whenOk
  intro r
  exact clean_confirm (fun m' => undone_storeInto hp) _

theorem clean_writeKeyed (hp : m.world.heap.Proper) (view : View .object) (key : String)
    (v : Value) : Clean m (writeKeyed view key v) := by
  apply clean_whenOk
  intro id
  apply clean_whenOk
  intro bytes
  apply clean_whenOk
  intro r
  exact clean_confirm (fun m' => undone_objectSet hp) _

/-! ## Calls and tasks -/

theorem clean_callView (hc : on.call.Safe t) (hg : m.Good t keep) (view : View .function)
    (args : List Value) (receiver : Value) : Clean m (callView on view args receiver) := by
  apply clean_whenOk
  intro id
  apply clean_whenOk
  intro argv
  split
  · exact clean_pure _
  · apply clean_whenOk
    intro this
    apply clean_accept hg.sound.counted.proper
    intro given m' h hs
    exact callFunction_failed hc hg h hs

theorem clean_settledTask (v : Value) : Clean m (settledTask v) := by
  apply clean_whenOk
  intro r e m' h
  cases h

/-- A copy of a value that was to become a global is dropped again. -/
theorem clean_declareCopy (hp : m.world.heap.Proper) (name : String) (v : Value) :
    Clean m (share v.slot >>= fun _ => declareTop on name v) := by
  intro e m' h
  have hrun : (share v.slot >>= fun _ => declareTop on name v) m =
      declareTop on name v { m with world := m.world.share v.slot } := rfl
  rw [hrun] at h
  rw [declareTop_failed h]
  exact (((Machine.Gains.refl m).share v.slot).drop hp).undone fun _ => rfl

/-- The value that was to become a global is dropped. -/
theorem declareMove_failed (hg : m.Good t keep)
    (h : perform on keep.length (.declareMove name v) m = .done (.error e) m') :
    m.Forfeits (m.world.inHand keep.length [v.slot]) m' := by
  have hrun : perform on keep.length (.declareMove name v) m =
      declareTop on name v { m with world := m.world.secure keep.length v.slot } := rfl
  rw [hrun] at h
  rw [declareTop_failed h]
  exact Machine.forfeits_secure hg v.slot

end Act
end Enclave
