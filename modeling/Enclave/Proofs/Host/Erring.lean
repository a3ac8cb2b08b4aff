import Enclave.Proofs.Host.Calls
import Enclave.Proofs.Host.Faultless
import Enclave.Proofs.World.Change
import Enclave.Proofs.World.Kept

/-! # Acts that err

The rules by which an act errs exactly if something is wrong with its input, and what such acts are put
together from: checks of the input, and changes that nothing is in the way of while no access is in
progress.
-/
namespace Enclave

open Act Text

/-! ## Input -/

/-- If the value is a text, it can be sent. -/
def Value.IsSendable : Value → Prop
  | .scalar (.string s) => IsPlain s
  | _ => True

theorem bad_of_error {α ε : Type} {check : Except ε α} {bad : Prop} {e : ε}
    (hc : check.isOk = false ↔ bad) (h : check = .error e) : bad :=
  hc.mp (by rw [h]; rfl)

theorem fine_of_ok {α ε : Type} {check : Except ε α} {bad : Prop} {a : α}
    (hc : check.isOk = false ↔ bad) (h : check = .ok a) : ¬ bad := by
  intro hbad
  have hfalse := hc.mpr hbad
  rw [h] at hfalse
  cases hfalse

theorem isOk_sentText (s : String) : (sentText s).isOk = false ↔ ¬ IsPlain s := by
  rw [sentText_eq]
  split <;> rename_i h <;> simp [h, Except.isOk, Except.toBool]

theorem Value.isOk_lend (v : Value) : v.lend.isOk = false ↔ ¬ v.IsSendable := by
  cases v with
  | handle kind id => simp [lend, IsSendable, Except.isOk, Except.toBool]
  | scalar c =>
    cases c with
    | null | number | bool => simp [lend, IsSendable, Except.isOk, Except.toBool]
    | string s =>
      rw [IsSendable, ← isOk_sentText, lend]
      cases sentText s <;> rfl

theorem View.isOk_target {kind : Kind} (view : View kind) :
    view.target.isOk = false ↔ view.handle? = none := by
  obtain ⟨handle⟩ := view
  cases handle <;> simp [target, Except.isOk, Except.toBool]

/-- A view's cell, if it has one, is of the view's kind. -/
def View.IsTagged {kind : Kind} (view : View kind) (w : World) : Prop :=
  ∀ id, view.handle? = some id → w.heap.kind? id = some kind

namespace Payload

variable {p : Payload}

theorem array_of_kind (hk : p.kind = .array) : ∃ elements, p = .array elements := by
  cases p with
  | array elements => exact ⟨elements, rfl⟩
  | object | function | classDesc | task => cases hk

theorem object_of_kind (hk : p.kind = .object) :
    ∃ properties link, p = .object properties link := by
  cases p with
  | object properties link => exact ⟨properties, link, rfl⟩
  | array | function | classDesc | task => cases hk

theorem function_of_kind (hk : p.kind = .function) : ∃ f, p = .function f := by
  cases p with
  | function f => exact ⟨f, rfl⟩
  | array | object | classDesc | task => cases hk

end Payload

namespace World

variable {w : World} {id : CellId} {kind : Kind}

/-- No access is in the way of another. -/
def IsOpen (w : World) : Prop :=
  ∀ place, w.canWrite place = true

theorem isOpen_of_guards (h : w.guards = []) : w.IsOpen :=
  fun place => by simp [canWrite, h]

theorem IsOpen.congr {w' : World} (h : w.IsOpen) (hg : w'.guards = w.guards)
    (he : w'.exclusion = w.exclusion) : w'.IsOpen :=
  fun place => by simpa [canWrite, hg, he] using h place

theorem IsOpen.change {f : World → World} (h : w.IsOpen) (hf : Change f) : (f w).IsOpen := by
  have hframed := hf.framed (g := w.guards) (e := w.exclusion) (l := w.ledger) w
  have hexclusion := congrArg World.exclusion hframed
  exact h.congr (hf.guards w) hexclusion

theorem IsOpen.consumed (h : w.IsOpen) (r : Record) : (w.consumed r).IsOpen := by
  unfold World.consumed
  split
  · exact h
  · exact (h.change .drop).change (.push _)

theorem kind?_secure (w : World) (base : Nat) (s : Slot) (x : CellId) :
    (w.secure base s).heap.kind? x = w.heap.kind? x := by
  rcases heap_secure w base s with h | h <;> rw [h]
  cases s with
  | scalar v => rfl
  | cell id => exact ((Heap.Raised.refl w.heap).retain id).kind? x

/-- What is alive comes to the top when it is secured. -/
theorem top_secure (w : World) (base : Nat) {s : Slot} (ha : w.Alive s) :
    (w.secure base s).top = s := by
  have hsame : w.secure base s = w.secure (min base w.stack.length) s := by
    have hn : w.stack.length - base = w.stack.length - min base w.stack.length := by omega
    cases s with
    | scalar v => rfl
    | cell id => simp only [secure, secureUnder, above, hn]
  have hstack := (List.take_append_drop (w.stack.length - base) w.stack).symm
  have hlength : min base w.stack.length = (w.stack.drop (w.stack.length - base)).length := by
    rw [List.length_drop]
    omega
  obtain ⟨heap, stack, hsecure, -⟩ := secure_alive hstack hlength ha
  rw [hsame, hsecure]
  rfl

theorem exists_writable (h : w.IsOpen) (hp : w.heap.Proper) (hk : w.heap.kind? id = some kind) :
    ∃ p, w.writable? id = some p ∧ p.kind = kind := by
  obtain ⟨p, hpayload, hkind⟩ := Option.map_eq_some_iff.mp ((hp.kind? id).symm.trans hk)
  exact ⟨p, by rw [writable?, if_pos (h _), hpayload], hkind⟩

end World

namespace Act

variable {α β ε : Type} {m m' : Machine} {on : Surroundings} {sure bad bad' : Prop}

/-! ## Acts that err -/

/-- A result that the act comes to from `m` is an error exactly if the input is `bad`. It comes to one if
the input is bad, and also if it is not as long as it is `sure` to. -/
def Errs (sure : Prop) (m : Machine) (x : Act (Except ε α)) (bad : Prop) : Prop :=
  (∀ r m', x m = .done r m' → (r.isOk = false ↔ bad)) ∧
    (sure ∨ bad → ∃ r m', x m = .done r m')

theorem Errs.congr {x : Act (Except ε α)} (h : Errs sure m x bad) (hb : bad ↔ bad') :
    Errs sure m x bad' :=
  ⟨fun r m' hrun => (h.1 r m' hrun).trans hb, fun hs => h.2 (hs.imp_right hb.mpr)⟩

theorem errs_done {x : Act (Except ε α)} {r : Except ε α} (h : x m = .done r m')
    (hr : r.isOk = false ↔ bad) : Errs sure m x bad := by
  refine ⟨fun r' m₁ hrun => ?_, fun _ => ⟨r, m', h⟩⟩
  cases h.symm.trans hrun
  exact hr

theorem errs_ok {x : Act (Except ε α)} {a : α} (h : x m = .done (.ok a) m') :
    Errs sure m x False :=
  errs_done h (by simp [Except.isOk, Except.toBool])

theorem errs_error {x : Act (Except ε α)} {e : ε} (h : x m = .done (.error e) m') :
    Errs sure m x True :=
  errs_done h (by simp [Except.isOk, Except.toBool])

/-- An act that goes on only if a check on a request that takes slots over succeeds. -/
theorem errs_whenTaken {check : Except HostError α} {next : α → Act (Except HostError β)}
    {base : Nat} {taken : List Slot} (hc : check.isOk = false ↔ bad)
    (hx : ∀ a, check = .ok a → Errs sure m (next a) bad') :
    Errs sure m (whenTaken base taken check next) (bad ∨ bad') := by
  cases check with
  | ok a =>
    refine (hx a rfl).congr ?_
    simp only [← hc, Except.isOk, Except.toBool, Bool.true_eq_false, false_or]
  | error e =>
    have hrun : whenTaken base taken (Except.error e) next m =
        .done (.error e) { m with world := m.world.discardAll base taken } := rfl
    refine (errs_error hrun).congr ?_
    simp only [← hc, Except.isOk, Except.toBool, true_or]

/-- An act that goes on only if a check succeeds. -/
theorem errs_whenOk {check : Except HostError α} {next : α → Act (Except HostError β)}
    (hc : check.isOk = false ↔ bad) (hx : ∀ a, check = .ok a → Errs sure m (next a) bad') :
    Errs sure m (whenOk check next) (bad ∨ bad') := by
  have h : Errs sure m (whenTaken 0 [] check next) (bad ∨ bad') := errs_whenTaken hc hx
  cases check with
  | ok a => exact h
  | error e => exact h

theorem errs_confirm {x : Act Bool} {status : Bool} {operation : Operation}
    (h : x m = .done status m') (hs : status = false ↔ bad) :
    Errs sure m (x >>= confirm operation) bad := by
  have hrun : (x >>= confirm operation) m = confirm operation status m' := bind_done h
  cases status with
  | true => exact (errs_ok hrun).congr (by simpa using hs)
  | false => exact (errs_error hrun).congr (by simpa using hs)

theorem Turns.errs {x : Act (Except ε α)} {a : α} {g : Gain}
    (h : Turns m .none x fun r k => r = .ok a ∧ k = g) : Errs sure m x False := by
  obtain ⟨_, _, m', hrun, -, rfl, -⟩ := h.run
  exact errs_ok hrun

/-! ## Containers -/

/-- An element is refused only far behind the end. -/
theorem putElement_eq_none {elements : Array Slot} {index : Nat} {s : Slot} :
    Payload.putElement index (.array elements) s = none ↔
      elements.size + maxElementGap < index := by
  have hgap : isWritable elements.size index = true ↔ index ≤ elements.size + maxElementGap := by
    rw [isWritable, decide_eq_true_iff]
    omega
  by_cases hw : isWritable elements.size index = true
  · obtain ⟨elements', old, hput, -⟩ := Payload.putElement_writable hw s
    have hnear := hgap.mp hw
    simp only [hput, reduceCtorEq, false_iff]
    omega
  · have hfar : ¬ index ≤ elements.size + maxElementGap := fun h => hw (hgap.mpr h)
    have hold : elements[index]? = none := Array.getElem?_eq_none (by omega)
    have hnone : Payload.putElement index (.array elements) s = none := by
      simp [Payload.putElement, storeElement, hold, hw]
    simp only [hnone, true_iff]
    omega

/-- The length of an array is always known. -/
theorem arrayLength_eq (handle : Option CellId) (m : Machine) :
    ∃ n, arrayLength handle m = .done n m := by
  unfold arrayLength
  rw [bind_done (world_eq m)]
  cases m.world.cellOf? .array handle with
  | none => exact ⟨0, rfl⟩
  | some id =>
    dsimp only
    rw [reading_eq (fun p => by cases p <;> exact unguarded_pure _) (unguarded_pure 0)]
    cases m.world.visible? id with
    | none => exact ⟨0, rfl⟩
    | some p => cases p <;> exact ⟨_, rfl⟩

/-- A method that is handed over goes into a class that can be written. -/
theorem addMethod_stored {handle : Option CellId} {f id : CellId} {p : Payload}
    (hf : m.world.cellOf? .function m.world.top.cell? = some f)
    (hid : m.world.cellOf? .classDesc handle = some id) (hw : m.world.writable? id = some p)
    (bytes : Text.Bytes) :
    addMethod handle (some bytes) m = .done true { m with world :=
      (m.world.exchangePayload id (Payload.putMethod (readText bytes))).drop } := by
  have hwrite : writing id (fun _ => do
      change (·.exchangePayload id (Payload.putMethod (readText bytes)))
      pure true) (pure false) m = .done true
        { m with world := m.world.exchangePayload id (Payload.putMethod (readText bytes)) } := by
    rw [writing_eq (fun p => (unguarded_exchange _ _).then_pure true) (unguarded_pure false), hw]
    rfl
  unfold addMethod
  rw [bind_done (top_eq m), bind_done (world_eq m), hf, hid]
  exact bind_done hwrite

theorem isOk_sentName (name : String) :
    (sentName name).isOk = false ↔ name = "" ∨ ¬ IsPlain name := by
  unfold sentName
  by_cases hname : name = ""
  · simp [hname, Except.isOk, Except.toBool]
  · have hempty : name.isEmpty = false := by simpa using hname
    simp only [hempty, Bool.false_eq_true, if_false, isOk_sentText, hname, false_or]

/-- A value that makes room for its record leaves everything open. -/
theorem clearScalar_open (hopen : m.world.IsOpen) (v : Value) :
    ∃ w, clearScalar v m = .done () { m with world := w } ∧ w.IsOpen := by
  cases v with
  | scalar c => exact ⟨_, rfl, (hopen.change .drop).change (.push .null)⟩
  | handle kind id => exact ⟨m.world, rfl, hopen⟩

/-- A closure can always be bound. -/
theorem bindClosure_open (hopen : m.world.IsOpen) (base : Nat) (label : Option String)
    (captured : List Value) (body : HostFunction) :
    ∃ i w, bindClosure base label captured body m = .done i { m with world := w } ∧ w.IsOpen := by
  have hsecured := hopen.change (.secureAll base (captured.map Value.slot))
  have hbind := (surely_change (f := (·.bind label (captured.map Value.kind) body))
    (g := ⟨.bindings, true⟩)
    (fun w => by simp [World.bind, World.guard, World.unguard, World.newest])
    { m with world := m.world.secureAll base 0 (captured.map Value.slot) }).trans
      (if_pos (hsecured .bindings))
  exact ⟨_, _, bind_done hbind, hsecured.change (.bind label (captured.map Value.kind) body)⟩

theorem registerNative_open (hopen : m.world.IsOpen) (scope : ScopeId) (bytes : Text.Bytes)
    (f : NativeFunction) :
    registerNative scope true (some bytes) (some f) m = .done true { m with world :=
      ((m.world.allocFunction f).exchangeGlobal scope (readText bytes)).drop } := by
  have hmade := hopen.change (.allocFunction f)
  have hcreate : createNative (some f) m = .done () { m with world := m.world.allocFunction f } := rfl
  have hdeclare := (declare_eq scope (readText bytes) { m with world := m.world.allocFunction f }).trans
    (if_pos (hmade _))
  change (createNative (some f) >>= fun _ => declare scope (readText bytes) >>= fun _ =>
    pure true) m = _
  rw [bind_done hcreate, bind_done hdeclare]
  rfl

end Act
end Enclave
