import Enclave.Proofs.Host.Failure
import Enclave.Proofs.Host.Sent
import Enclave.Proofs.Host.Tidy

/-! # What becomes of what is taken over

A call that takes a value over and succeeds has moved the reference from the hand to its new owner: a
scope, a class or a closure. No other entry in hand is touched, and counts go with owners.
-/
namespace Enclave

open Act Text

/-- The machine `m'` is `m` after a call in which as many references in hand as `consumed` says went to
new owners. -/
structure Machine.Yields (m : Machine) (consumed : CellId → Nat) (m' : Machine) : Prop where
  hand : ∀ id, holders m'.world.stack id + consumed id = holders m.world.stack id
  counts : m.Follows m'

namespace World

variable {w : World} {s : Slot} {rest : List Slot} {scope : ScopeId} {globals : Table Slot}

theorem stack_of_top {id : CellId} (h : w.top.cell? = some id) :
    w.stack = .cell id :: w.stack.tail := by
  cases hs : w.stack with
  | nil =>
    rw [top, hs] at h
    cases h
  | cons s rest =>
    rw [top, hs, List.headD_cons] at h
    cases s with
    | scalar c => cases h
    | cell x =>
      cases h
      rfl

/-- A record that comes with its own reference leaves its slot as the newest entry. -/
theorem consumed_eq {r : Record} (hr : w.top.cell? = r.slot.cell?) :
    w.consumed r = { w with stack := r.slot :: w.stack.tail } := by
  unfold consumed
  cases hslot : r.slot with
  | scalar v =>
    rw [hslot] at hr
    obtain ⟨c, hc⟩ : ∃ c, w.top = .scalar c := by
      cases htop : w.top with
      | scalar c => exact ⟨c, rfl⟩
      | cell id =>
        rw [htop] at hr
        cases hr
    dsimp only
    rw [drop_eq, hc, without, Heap.releaseSlots_scalar]
    rfl
  | cell id =>
    rw [hslot] at hr
    dsimp only
    rw [← stack_of_top hr]

end World

namespace Machine

variable {t : Limits} {m : Machine} {w : World} {s : Slot} {rest : List Slot} {scope : ScopeId}

/-- What goes into an open scope is the value of the global, and no longer in hand. -/
theorem declared (hs : m.world.Sound t) (hm : World.Move t m.world w) (hlost : w.lost = m.world.lost)
    (hstack : w.stack = s :: rest) (hscope : (w.scope? scope).isSome = true) (name : String) :
    ((w.exchangeGlobal scope name).drop).global? scope name = some s ∧
      ((w.exchangeGlobal scope name).drop).stack = rest ∧
      ((w.exchangeGlobal scope name).drop).engine = w.engine ∧
      m.Follows { m with world := (w.exchangeGlobal scope name).drop } := by
  obtain ⟨globals, ht⟩ := Option.isSome_iff_exists.mp hscope
  have hmove := hm.trans ((w.move_exchangeGlobal t scope name).trans (World.move_dropTop t _))
  have heq := World.drop_exchangeGlobal name hstack ht
  rw [heq] at hmove ⊢
  refine ⟨World.global?_put ht name s, rfl, rfl, ?_⟩
  exact follows_of_sound hs (hmove.sound hs) hlost

end Machine

namespace Act

variable {t : Limits} {keep : List Slot} {m m' : Machine} {on : Surroundings} {v : Value}
  {name : String}

/-! ## Entry points -/

/-- The record's slot is the value of the global. -/
theorem declareGlobal_delivers {scope : ScopeId} {running : Bool} {name : Option Text.Bytes}
    {v : Option Record} (hs : m.world.Sound t)
    (h : declareGlobal scope running name v m = .done true m') :
    ∃ bytes r, name = some bytes ∧ v = some r ∧
      (m.world.top.cell? = r.slot.cell? → (m.world.scope? scope).isSome = true →
        m.Yields m.world.top.owns m' ∧
          m'.world.global? scope (readText bytes) = some r.slot) := by
  rcases declareGlobal_cases h with ⟨hfalse, -⟩ | ⟨bytes, r, -, hname, hv, rfl⟩
  · cases hfalse
  · refine ⟨bytes, r, hname, hv, fun hr hscope => ?_⟩
    rw [World.consumed_eq hr]
    have hm : World.Move t m.world { m.world with stack := r.slot :: m.world.stack.tail } := by
      apply World.move_stack
      intro id
      have hhand := m.world.holders_tail id
      have howns : r.slot.owns id = m.world.top.owns id := by rw [Slot.owns, Slot.owns, hr]
      rw [holders_cons, howns]
      omega
    obtain ⟨hglobal, hstack, -, hfollows⟩ := Machine.declared hs hm rfl rfl hscope (readText bytes)
    refine ⟨⟨fun id => ?_, hfollows⟩, hglobal⟩
    have hhand := m.world.holders_tail id
    rw [hstack]
    exact hhand

/-- The function is a method of the class, if the class is still there. -/
theorem addMethod_delivers {handle : Option CellId} {name : Option Text.Bytes}
    (hs : m.world.Sound t) (h : addMethod handle name m = .done true m') :
    ∃ id bytes, handle = some id ∧ name = some bytes ∧ m.Yields m.world.top.owns m' ∧
      ∀ p, m'.world.heap.payload? id = some p → ∃ label methods, p = .classDesc label methods ∧
        methods.get? (readText bytes) = some m.world.top := by
  rcases addMethod_cases h with ⟨hfalse, -⟩ | ⟨f, id, p, bytes, -, hf, hname, hid, hw, rfl⟩
  · cases hfalse
  · have hp := World.payload?_of_writable hw
    have hkind := kind_of_cellOf? hs.counted.proper hid hp
    obtain ⟨label, methods, rfl⟩ : ∃ label methods, p = .classDesc label methods := by
      cases p with
      | classDesc label methods => exact ⟨label, methods, rfl⟩
      | array | object | function | task => cases hkind
    have hstack : m.world.stack = m.world.top :: m.world.stack.tail := by
      have hcons := World.stack_of_top (World.handle_of_cellOf? hf)
      rw [World.top, hcons]
      rfl
    have hmove : World.Move t m.world _ :=
      (m.world.move_exchangePayload t id (Payload.swaps_putMethod (readText bytes))).trans
        (World.move_dropTop t _)
    have heq := World.drop_exchangePayload (f := Payload.putMethod (readText bytes)) hstack hp rfl
    rw [heq] at hmove ⊢
    refine ⟨id, bytes, World.handle_of_cellOf? hid, hname, ⟨fun x => ?_, ?_⟩, fun q hq => ?_⟩
    · exact m.world.holders_tail x
    · exact Machine.follows_of_sound hs (hmove.sound hs) rfl
    · refine ⟨label, methods.put (readText bytes) m.world.top, ?_, Table.get?_put_self _ _ _⟩
      exact Heap.payload?_stored hp hq

/-! ## Requests -/

theorem whenTaken_ok {α β : Type} {check : Except HostError α}
    {next : α → Act (Except HostError β)} {base : Nat} {slots : List Slot} {b : β}
    (h : whenTaken base slots check next m = .done (.ok b) m') :
    ∃ a, check = .ok a ∧ next a m = .done (.ok b) m' := by
  cases check with
  | ok a => exact ⟨a, rfl, h⟩
  | error e => cases h

theorem sentText_of_sentName {name : String} {bytes : Text.Bytes} (h : sentName name = .ok bytes) :
    sentText name = .ok bytes := by
  unfold sentName at h
  split at h
  · cases h
  · exact h

/-- A name is read as it was sent. -/
theorem readText_of_sent {bytes : Text.Bytes} (h : sentText name = .ok bytes) :
    readText bytes = name := by
  rw [sentText_eq] at h
  by_cases hname : IsPlain name
  · rw [if_pos hname] at h
    cases h
    rw [readText_encode, cut_eq_self hname]
  · rw [if_neg hname] at h
    cases h

theorem declareTop_ok (h : declareTop on name v m = .done (.ok ()) m') :
    IsPlain name ∧ ∃ r, v.lend = .ok r := by
  unfold declareTop at h
  rw [sentText_eq] at h
  by_cases hname : IsPlain name
  · rw [if_pos hname] at h
    obtain ⟨outcome, m₁, hover, h⟩ := bind_done_iff.mp h
    refine ⟨hname, ?_⟩
    unfold handOver at hover
    cases hr : v.lend with
    | ok r => exact ⟨r, rfl⟩
    | error e =>
      rw [hr] at hover
      cases hover
      cases h
  · rw [if_neg hname] at h
    cases h

/-- The value is that of the global. -/
theorem declareMove_delivers (hg : m.Good t keep) (hv : v.IsTagged) (ha : m.world.Alive v.slot)
    (hscope : (m.world.scope? on.scope).isSome = true)
    (h : perform on keep.length (.declareMove name v) m = .done (.ok ()) m') :
    m.Yields (m.world.inHand keep.length [v.slot]) m' ∧
      m'.world.global? on.scope name = some v.slot := by
  have hrun : perform on keep.length (.declareMove name v) m =
      declareTop on name v { m with world := m.world.secure keep.length v.slot } := rfl
  rw [hrun] at h
  have hmove := m.world.move_secureUnder t keep.length 0 v.slot
  obtain ⟨xs, hxs⟩ := hg.keeps
  obtain ⟨heap, stack, hsecure, hhand⟩ := World.secure_alive hxs.symm rfl ha
  change World.Move t m.world (m.world.secure keep.length v.slot) at hmove
  rw [hsecure] at h hmove
  obtain ⟨hname, r, hlend⟩ := declareTop_ok h
  rw [declareTop_sent rfl hlend (Value.slot_of_lend hv hlend) hname] at h
  obtain ⟨u, m₁, hdeclare, h⟩ := bind_done_iff.mp h
  cases h
  obtain ⟨-, rfl⟩ := declare_done hdeclare
  obtain ⟨hglobal, hstack, -, hfollows⟩ := Machine.declared hg.sound hmove rfl rfl hscope name
  refine ⟨⟨fun id => ?_, hfollows⟩, hglobal⟩
  rw [hstack]
  exact hhand id

/-- The method is one of the class, if the class is still there. -/
theorem installMethod_delivers {view : View .classDesc} {method : View .function}
    (hg : m.Good t keep) (ha : m.world.Alive method.value.slot)
    (h : installMethod keep.length view name method m = .done (.ok ()) m') :
    ∃ id, view.handle? = some id ∧ m.Yields (m.world.inHand keep.length [method.value.slot]) m' ∧
      ∀ p, m'.world.heap.payload? id = some p → ∃ label methods, p = .classDesc label methods ∧
        methods.get? name = some method.value.slot := by
  obtain ⟨id, hid, h⟩ := whenTaken_ok h
  obtain ⟨bytes, hbytes, h⟩ := whenTaken_ok h
  obtain ⟨f, hf, h⟩ := whenTaken_ok h
  have hslot := slot_of_target hf
  rw [hslot] at ha ⊢
  obtain ⟨u, m₁, hsecured, h⟩ := bind_done_iff.mp h
  cases hsecured
  obtain ⟨status, m₂, hadd, h⟩ := bind_done_iff.mp h
  have hmove : World.Move t m.world (m.world.secure keep.length (.cell f)) :=
    m.world.move_secureUnder t keep.length 0 (.cell f)
  obtain ⟨xs, hxs⟩ := hg.keeps
  obtain ⟨heap, stack, hsecure, hhand⟩ := World.secure_alive hxs.symm rfl ha
  cases status with
  | false => cases h
  | true =>
    cases h
    change addMethod (some id) (some bytes)
      { m with world := m.world.secure keep.length (.cell f) } = _ at hadd
    rw [hsecure] at hadd hmove
    obtain ⟨x, bytes', hx, hname, hyields, hmethod⟩ := addMethod_delivers (hmove.sound hg.sound) hadd
    cases hx
    cases hname
    rw [readText_of_sent hbytes] at hmethod
    refine ⟨id, handle_of_target hid, ⟨fun y => ?_, ?_⟩, hmethod⟩
    · have hadded := hyields.hand y
      have hsecured := hhand y
      change holders m'.world.stack y + (Slot.cell f).owns y = holders (.cell f :: stack) y at hadded
      rw [holders_cons] at hadded
      omega
    · have hfirst : m.Follows { m with world :=
          { m.world with heap := heap, stack := .cell f :: stack } } :=
        Machine.follows_of_sound hg.sound (hmove.sound hg.sound) rfl
      exact hfirst.trans hyields.counts

/-! ## Closures and views -/

theorem ofSlot_slot (v : Value) : Value.ofSlot v.kind v.slot = v := by
  cases v <;> rfl

theorem zipWith_ofSlot (values : List Value) :
    (values.map Value.kind).zipWith Value.ofSlot (values.map Value.slot) = values := by
  induction values with
  | nil => rfl
  | cons v rest ih =>
    rw [List.map_cons, List.map_cons, List.zipWith_cons_cons, ofSlot_slot, ih]

/-- What stands on top, newest last, is captured as the values that it came from. -/
theorem bind_captured {w : World} {captured : List Value} {rest : List Slot}
    (hs : w.stack = (captured.map Value.slot).reverse ++ rest) (label : Option String)
    (body : HostFunction) :
    w.bind label (captured.map Value.kind) body = { w with
      engine := { w.engine with bindings := w.engine.bindings.push ⟨label, captured, body⟩ }
      stack := rest } := by
  have hlength : (captured.map Value.kind).length = (captured.map Value.slot).reverse.length := by
    simp
  have hnewest : w.newest (captured.map Value.kind).length = captured.map Value.slot := by
    rw [World.newest, hs, hlength, List.take_left, List.reverse_reverse]
  rw [World.bind, hnewest, zipWith_ofSlot, hs, hlength, List.drop_left]

/-- What a closure captures from the hand is its own, and the closure is the engine's newest. -/
theorem bindClosure_done {label : Option String} {captured : List Value} {body : HostFunction}
    {place : Nat} (hg : m.Good t keep)
    (hin : ∀ id, holders (captured.map Value.slot) id ≤ holders (m.world.above keep.length 0) id)
    (h : bindClosure keep.length label captured body m = .done place m') :
    ∃ w stack, m' = { m with world := w } ∧ place = m.world.engine.bindings.size ∧
      w = { m.world with
        engine := { m.world.engine with
          bindings := m.world.engine.bindings.push ⟨label, captured, body⟩ }
        stack := stack } ∧
      World.Move t m.world w ∧
      ∀ id, holders stack id + m.world.inHand keep.length (captured.map Value.slot) id =
        holders m.world.stack id := by
  obtain ⟨xs, hxs⟩ := hg.keeps
  have hs : m.world.stack = [] ++ (xs ++ keep) := hxs.symm
  have habove : m.world.above keep.length 0 = xs := World.above_eq hs rfl
  rw [habove] at hin
  obtain ⟨left, hsecure, hleft⟩ := World.secureAll_above (captured.map Value.slot) hs rfl hin
  rw [List.length_nil, List.append_nil] at hsecure
  let secured := m.world.secureAll keep.length 0 (captured.map Value.slot)
  have hstack : secured.stack = (captured.map Value.slot).reverse ++ (left ++ keep) :=
    congrArg World.stack hsecure
  have hsize : secured.engine.bindings.size = m.world.engine.bindings.size :=
    congrArg (fun w => w.engine.bindings.size) hsecure
  obtain ⟨rfl, rfl⟩ := bindClosure_run h
  refine ⟨_, left ++ keep, rfl, hsize, ?_, ?_, ?_⟩
  · exact (bind_captured hstack label body).trans (by simp only [secured, hsecure])
  · exact (m.world.move_secureAll t _ _ _).trans (World.move_bind t _ _ _ _)
  · intro id
    have hwhole := hleft id
    rw [World.inHand, habove, ← hxs, Nat.min_eq_left (hin id), holders_append, holders_append]
    omega

/-- The closure is the engine's newest, with the values that it captured. -/
theorem registerClosure_delivers {label : Option String} {captured : List Value}
    {body : HostFunction} (hg : m.Good t keep)
    (hin : ∀ id, holders (captured.map Value.slot) id ≤ holders (m.world.above keep.length 0) id)
    (hscope : (m.world.scope? on.scope).isSome = true)
    (h : registerClosure on keep.length name label captured body m = .done (.ok ()) m') :
    m.Yields (m.world.inHand keep.length (captured.map Value.slot)) m' ∧
      m'.world.engine = { m.world.engine with
        bindings := m.world.engine.bindings.push ⟨label, captured, body⟩ } := by
  rcases registerClosure_cases h with ⟨e, hreply, -⟩ | ⟨bytes, place, m₁, -, -, hbind, rfl⟩
  · cases hreply
  obtain ⟨w, stack, rfl, rfl, rfl, hmove, hhand⟩ := bindClosure_done hg hin hbind
  have hmade := hmove.trans (World.move_installEmpty t _
    (.function (.closure (some m.world.engine.bindings.size))) rfl)
  obtain ⟨-, hrest, hengine, hfollows⟩ :=
    Machine.declared hg.sound hmade rfl rfl hscope (readText bytes)
  refine ⟨⟨fun id => ?_, hfollows⟩, hengine⟩
  exact (congrArg (holders · id + _) hrest).trans (hhand id)

/-- A view of what was in hand. -/
theorem viewTaken_ok {kind : Kind} {view : View kind} (h : viewTaken kind v m = .done (.ok view) m') :
    v.kind = kind ∧ view = ⟨v.handle?⟩ ∧ m' = m := by
  unfold viewTaken at h
  by_cases hk : v.kind = kind
  · rw [if_pos hk] at h
    cases h
    exact ⟨hk, rfl, rfl⟩
  · rw [if_neg hk] at h
    cases h

/-- A handle that is handed over goes as it stands. -/
theorem handOver_ok {r : Record} (hv : v.IsTagged) (h : handOver v m = .done (.ok r) m') :
    r.slot = v.slot ∧ (v.isHandle = true → m' = m) := by
  unfold handOver at h
  cases hr : v.lend with
  | error e =>
    rw [hr] at h
    cases h
  | ok r' =>
    rw [hr] at h
    obtain ⟨u, m₁, hclear, h⟩ := bind_done_iff.mp h
    cases h
    refine ⟨Value.slot_of_lend hv hr, fun hhandle => ?_⟩
    cases v with
    | scalar c => cases hhandle
    | handle kind id =>
      cases hclear
      rfl

end Act
end Enclave
