import Enclave.Proofs.Host.Native
import Enclave.Proofs.Script.Evaluate
import Enclave.Proofs.Script.Reaches

/-! # How high evaluation leaves the stack

An expression leaves one entry, its value, on top of the stack that it finds, and a script leaves one or,
after a fault, none. That they leave the stack and add as many entries at least is part of their
specifications; here it is shown that they add as many at most.
Whatever host code leaves behind, a call unwinds to the height that it began at.
-/
namespace Enclave

open Act

namespace World

variable (w : World)

theorem length_drop : w.drop.stack.length = w.stack.length - 1 := by
  unfold drop
  split
  · rename_i h
    rw [h]
    rfl
  · rename_i s rest h
    rw [h]
    rfl

theorem length_share (s : Slot) : (w.share s).stack.length = w.stack.length + 1 := by
  cases s with
  | scalar v => rfl
  | cell id =>
    unfold share
    dsimp only
    split <;> rfl

theorem length_settle (n : Nat) : (w.settle n).stack.length ≤ w.stack.length - (n + 1) + 1 := by
  unfold settle
  split
  · rename_i h
    rw [h]
    exact Nat.zero_le _
  · rename_i s rest h
    simp only [h, List.length_cons, List.length_drop]
    omega

theorem length_unwind (base : Nat) : (w.unwind base).stack.length ≤ base := by
  simp only [unwind, dropMany, List.length_drop]
  omega

theorem length_replaceBelow (n : Nat) :
    (w.replaceBelow n).stack.length ≤ w.stack.length - (n + 2) + (n + 1) := by
  unfold replaceBelow
  split
  · rename_i h
    rw [h]
    exact Nat.zero_le _
  · rename_i s rest h
    split
    · rename_i hdrop
      have hn : rest.length ≤ n := List.drop_eq_nil_iff.mp hdrop
      simp only [h, List.length_cons]
      omega
    · rename_i old deeper hdrop
      have hlength := congrArg List.length hdrop
      simp only [List.length_drop, List.length_cons] at hlength
      simp only [h, List.length_append, List.length_take, List.length_cons]
      omega

theorem length_exchangePayload (id : CellId) (f : Payload → Slot → Option (Payload × Slot)) :
    (w.exchangePayload id f).stack.length = w.stack.length := by
  unfold exchangePayload
  split
  · rename_i s rest p h hp
    split
    · rw [h]
      rfl
    · rfl
  · rfl

theorem length_exchangeGlobal (scope : ScopeId) (name : String) :
    (w.exchangeGlobal scope name).stack.length = w.stack.length := by
  unfold exchangeGlobal
  split
  · rename_i s rest table h htable
    rw [h]
    rfl
  · rfl

theorem length_allocInstance (id : CellId) :
    (w.allocInstance id).stack.length = w.stack.length + 1 := by
  unfold allocInstance
  split <;> rfl

end World

namespace Act

variable {α β : Type} {n k : Nat} {b : α → Nat} {c : β → Nat} {x : Act α}

/-- An act that ends well has at most `b` entries in place of the newest `n`. -/
def AtMost (n : Nat) (x : Act α) (b : α → Nat) : Prop :=
  ∀ m r m', x m = .done r m' → m'.world.stack.length ≤ m.world.stack.length - n + b r

/-! ## Rules -/

theorem atMost_pure (r : α) (h : n ≤ b r) : AtMost n (pure r) b := by
  rintro m _ _ ⟨⟩
  omega

theorem atMost_raise (fault : Fault) : AtMost n (raise fault : Act α) b := by
  rintro m _ _ ⟨⟩

theorem atMost_stop (why : Stop) : AtMost n (stop why : Act α) b := by
  rintro m _ _ ⟨⟩

theorem AtMost.bind {f : α → Act β} (hx : AtMost n x b) (hn : n ≤ k)
    (hf : ∀ r, AtMost (k - n + b r) (f r) c) : AtMost k (x >>= f) c := by
  intro m s m' h
  obtain ⟨r, m₁, hrun, hrun'⟩ := bind_done_iff.mp h
  have h₁ := hx m r m₁ hrun
  have h₂ := hf r m₁ s m' hrun'
  omega

theorem AtMost.last {c : α → Nat} (hx : AtMost n x b) (hn : n ≤ k)
    (hc : ∀ r, k - n + b r ≤ c r) : AtMost k x c := by
  intro m r m' h
  have h₁ := hx m r m' h
  have h₂ := hc r
  omega

theorem atMost_world {f : World → Act β} (hf : ∀ w, AtMost n (f w) c) :
    AtMost n (world >>= f) c :=
  fun m => hf m.world m

theorem atMost_top {f : Slot → Act β} (hf : ∀ s, AtMost n (f s) c) : AtMost n (top >>= f) c :=
  fun m => hf m.world.top m

theorem atMost_peek {f : Slot → Act β} (i : Nat) (hf : ∀ s, AtMost n (f s) c) :
    AtMost n (peek i >>= f) c :=
  fun m => hf (m.world.stack.getD i .null) m

theorem atMost_newest {f : List Slot → Act β} (i : Nat) (hf : ∀ slots, AtMost n (f slots) c) :
    AtMost n (newest i >>= f) c :=
  fun m => hf (m.world.newest i) m

theorem atMost_change {f : World → World} {d : Nat}
    (hf : ∀ w, (f w).stack.length ≤ w.stack.length - n + d) : AtMost n (change f) fun _ => d := by
  rintro m _ _ ⟨⟩
  exact hf m.world

theorem AtMost.guarded (hx : AtMost n x b) (g : Guard) : AtMost n (guarded g x) b := by
  intro m r m' h
  unfold Act.guarded at h
  cases hrun : x { m with world := m.world.guard g } with
  | done r' m₁ =>
    rw [hrun] at h
    cases h
    exact hx { m with world := m.world.guard g } _ m₁ hrun
  | raised | stopped =>
    rw [hrun] at h
    cases h

theorem AtMost.accessing {refused : Act α} (hx : AtMost n x b) (hr : AtMost n refused b)
    (g : Guard) : AtMost n (accessing g x refused) b := by
  refine atMost_world fun w => ?_
  split
  · exact hx.guarded g
  · exact hr

theorem AtMost.surely (hx : AtMost n x b) (g : Guard) : AtMost n (surely g x) b :=
  hx.accessing (atMost_stop .conflict) g

theorem AtMost.reading {f : Payload → Act α} {refused : Act α} (hf : ∀ p, AtMost n (f p) b)
    (hr : AtMost n refused b) (id : CellId) : AtMost n (reading id f refused) b := by
  refine AtMost.accessing (atMost_world fun w => ?_) hr _
  split
  · exact hf _
  · exact hr

theorem AtMost.writing {f : Payload → Act α} {refused : Act α} (hf : ∀ p, AtMost n (f p) b)
    (hr : AtMost n refused b) (id : CellId) : AtMost n (writing id f refused) b := by
  refine AtMost.accessing (atMost_world fun w => ?_) hr _
  split
  · exact hf _
  · exact hr

/-! ## The working stack -/

theorem atMost_push (v : Scalar) : AtMost 0 (push v) fun _ => 1 :=
  atMost_change fun _ => Nat.le_refl _

theorem atMost_share (s : Slot) : AtMost 0 (share s) fun _ => 1 :=
  atMost_change fun w => Nat.le_of_eq (w.length_share s)

theorem atMost_drop : AtMost 1 drop fun _ => 0 :=
  atMost_change fun w => Nat.le_of_eq w.length_drop

theorem atMost_settle (n : Nat) : AtMost (n + 1) (settle n) fun _ => 1 :=
  atMost_change fun w => w.length_settle n

theorem atMost_same {f : World → World} (hf : ∀ w, (f w).stack.length = w.stack.length) :
    AtMost n (change f) fun _ => n :=
  atMost_change fun w => by rw [hf]; omega

/-! ## Members, globals and places -/

theorem atMost_readProperty (properties : Table Slot) (classLink : Option CellId) (name : String) :
    AtMost 0 (readProperty properties classLink name) fun _ => 1 := by
  unfold readProperty
  split
  · exact atMost_share _
  · split
    · exact atMost_push _
    · refine AtMost.reading (fun p => ?_) (atMost_push _) _
      split
      · exact atMost_share _
      · exact atMost_push _

theorem atMost_getMember (target key : Slot) : AtMost 0 (getMember target key) fun _ => 1 := by
  refine atMost_world fun w => ?_
  dsimp only
  split
  · exact atMost_raise _
  · split <;> exact atMost_push _
  · exact atMost_push _
  · refine AtMost.reading (fun p => ?_) (atMost_push _) _
    split
    · split
      · exact atMost_push _
      · exact atMost_share _
    · exact atMost_readProperty _ _ _
    · split <;> exact atMost_push _
    · split
      · exact atMost_share _
      · exact atMost_push _
    · exact atMost_push _

theorem atMost_setMember (target key : Slot) : AtMost 1 (setMember target key) fun _ => 0 := by
  refine atMost_world fun w => ?_
  dsimp only
  split
  · exact atMost_raise _
  · have hexchange : ∀ id f, AtMost 1 (change (·.exchangePayload id f)) fun _ => 1 :=
      fun id f => atMost_same fun w => w.length_exchangePayload id f
    refine (AtMost.writing (b := fun _ => 1) (fun p => ?_) (atMost_raise _) _).bind (Nat.le_refl 1)
      fun _ => atMost_drop
    split
    · split
      · exact atMost_raise _
      · split
        · exact hexchange _ _
        · exact atMost_raise _
    · exact hexchange _ _
    · exact atMost_raise _

theorem atMost_copyGlobal (scope : ScopeId) (name : String) :
    AtMost 0 (copyGlobal scope name) fun found => if found then 1 else 0 := by
  refine AtMost.surely (atMost_world fun w => ?_) _
  split
  · exact (atMost_share _).bind (Nat.le_refl 0) fun _ => atMost_pure _ (Nat.le_refl 1)
  · exact atMost_pure _ (Nat.le_refl 0)

theorem atMost_loadGlobal (scope : ScopeId) (name : String) :
    AtMost 0 (loadGlobal scope name) fun _ => 1 := by
  refine (atMost_copyGlobal scope name).bind (Nat.le_refl 0) fun found => ?_
  cases found with
  | true => exact atMost_pure _ (Nat.le_refl 1)
  | false => exact atMost_raise _

theorem atMost_declare (scope : ScopeId) (name : String) :
    AtMost 1 (declare scope name) fun _ => 0 := by
  have hexchange : AtMost 1 (change (·.exchangeGlobal scope name)) fun _ => 1 :=
    atMost_same fun w => w.length_exchangeGlobal scope name
  exact (hexchange.surely _).bind (Nat.le_refl 1) fun _ => atMost_drop

theorem atMost_storeGlobal (scope : ScopeId) (name : String) :
    AtMost 1 (storeGlobal scope name) fun _ => 0 := by
  refine (atMost_copyGlobal scope name).bind (Nat.zero_le 1) fun found => ?_
  cases found with
  | true =>
    exact atMost_drop.bind (Nat.le_add_left 1 1) fun _ => atMost_declare scope name
  | false => exact atMost_raise _

theorem atMost_load (scope : ScopeId) (place : Location) :
    AtMost 0 (load scope place) fun _ => 1 := by
  cases place with
  | «global» name => exact atMost_loadGlobal scope name
  | member target key => exact atMost_getMember target key

theorem atMost_store (scope : ScopeId) (place : Location) :
    AtMost 1 (store scope place) fun _ => 0 := by
  cases place with
  | «global» name => exact atMost_storeGlobal scope name
  | member target key => exact atMost_setMember target key

/-! ## Operators -/

theorem atMost_assignTo (scope : ScopeId) (place : Location) (op : AssignOp) :
    AtMost (place.width + 1) (assignTo scope place op) fun _ => 1 := by
  cases op with
  | set =>
    refine atMost_top fun right => ?_
    refine (atMost_share right).bind (Nat.zero_le _) fun _ => ?_
    refine (atMost_store scope place).bind (by omega) fun _ => ?_
    exact (atMost_settle _).last (by omega) fun _ => by omega
  | add | subtract | multiply =>
    refine atMost_top fun right => ?_
    refine (atMost_load scope place).bind (Nat.zero_le _) fun _ => ?_
    refine atMost_top fun left => atMost_world fun w => ?_
    refine atMost_drop.bind (by omega) fun _ => ?_
    refine (atMost_push _).bind (Nat.zero_le _) fun _ => ?_
    refine (atMost_push _).bind (Nat.zero_le _) fun _ => ?_
    refine (atMost_store scope place).bind (by omega) fun _ => ?_
    exact (atMost_settle _).last (by omega) fun _ => by omega
  | other => exact atMost_raise _

theorem atMost_updateAt (scope : ScopeId) (place : Location) (grows returnsNew : Bool) :
    AtMost place.width (updateAt scope place grows returnsNew) fun _ => 1 := by
  refine (atMost_load scope place).bind (Nat.zero_le _) fun _ => ?_
  refine atMost_top fun current => ?_
  refine atMost_drop.bind (by omega) fun _ => ?_
  refine (atMost_push _).bind (Nat.zero_le _) fun _ => ?_
  refine (atMost_store scope place).bind (by omega) fun _ => ?_
  refine (atMost_push _).bind (Nat.zero_le _) fun _ => ?_
  exact (atMost_settle _).last (by omega) fun _ => by omega

theorem atMost_applyUnary (op : UnaryOp) : AtMost 1 (applyUnary op) fun _ => 1 := by
  refine atMost_top fun arg => atMost_world fun w => ?_
  have hanswer : ∀ v, AtMost 1 (push v >>= fun _ => settle 1) fun _ => 1 := fun v =>
    (atMost_push v).bind (Nat.zero_le _) fun _ => (atMost_settle 1).last (by omega) fun _ => by omega
  cases op with
  | minus | plus | negate | typeOf => exact hanswer _
  | invert | discard | delete => exact atMost_raise _

theorem atMost_applyBinary (op : BinaryOp) : AtMost 2 (applyBinary op) fun _ => 1 := by
  refine atMost_peek 1 fun l => atMost_top fun r => atMost_world fun w => ?_
  exact (atMost_push _).bind (Nat.zero_le _) fun _ =>
    (atMost_settle 2).last (by omega) fun _ => by omega

theorem atMost_allocArray (n : Nat) : AtMost n (change (·.allocArray n)) fun _ => 1 :=
  atMost_change fun w => by simp [World.allocArray, World.install, World.pop]

theorem atMost_allocObject (keys : List String) :
    AtMost keys.length (change (·.allocObject keys)) fun _ => 1 :=
  atMost_change fun w => by simp [World.allocObject, World.install, World.pop]

theorem atMost_addProperty (keys : List String) (key : String) :
    AtMost (keys.length + 1) (addProperty keys key) fun keys => keys.length := by
  unfold addProperty
  split
  · rename_i i hi
    obtain ⟨hlt, -⟩ := List.findIdx?_eq_some_iff_getElem.mp hi
    have hreplace : AtMost (keys.length + 1) (change (·.replaceBelow (keys.length - 1 - i)))
        fun _ => keys.length := by
      refine atMost_change fun w => ?_
      have hlength := w.length_replaceBelow (keys.length - 1 - i)
      omega
    exact hreplace.bind (Nat.le_refl _) fun _ => atMost_pure _ (by omega)
  · exact atMost_pure _ (by simp)

/-! ## Calls -/

theorem atMost_consume (r : Record) : AtMost 1 (consume r) fun _ => 1 := by
  unfold consume
  cases r.slot with
  | cell id => exact atMost_pure _ (Nat.le_refl 1)
  | scalar v => exact atMost_drop.bind (Nat.le_refl 1) fun _ => atMost_push v

theorem atMost_freeText (block : Option Nat) : AtMost n (freeText block) fun _ => n := by
  cases block with
  | none => exact atMost_pure _ (Nat.le_refl n)
  | some i => exact atMost_same (f := (·.freeText i)) fun _ => rfl

theorem atMost_allocText (s : String) : AtMost n (allocText s) fun _ => n :=
  atMost_world fun _ => (atMost_same (f := World.allocText) fun _ => rfl).bind (Nat.le_refl n)
    fun _ => atMost_pure _ (by omega)

theorem atMost_handBack (v : Value) : AtMost 1 (handBack v) fun _ => 1 := by
  have hrecord : AtMost 1 (resultRecord v) fun _ => 1 := by
    cases v with
    | handle kind id => exact atMost_pure _ (Nat.le_refl 1)
    | scalar c =>
      cases c with
      | string s =>
        exact (atMost_allocText s).bind (Nat.le_refl 1) fun _ => atMost_pure _ (Nat.le_refl 1)
      | null | number | bool => exact atMost_pure _ (Nat.le_refl 1)
  have hclear : AtMost 1 (clearScalar v) fun _ => 1 := by
    cases v with
    | handle kind id => exact atMost_pure _ (Nat.le_refl 1)
    | scalar c => exact atMost_drop.bind (Nat.le_refl 1) fun _ => atMost_push .null
  exact hrecord.bind (Nat.le_refl 1) fun _ =>
    hclear.bind (Nat.le_refl 1) fun _ => atMost_pure _ (Nat.le_refl 1)

/-- Host code may leave anything above the height that it began at: a result is settled there, and
after a failure the stack is unwound to it. -/
theorem atMost_conclude {x : Nat → Act (Except String Value)} {kept : Value → Act Record}
    {failed : String → Act Record} (hkept : ∀ v, AtMost 1 (kept v) fun _ => 1)
    (hfailed : ∀ e, AtMost 0 (failed e) fun _ => 1) :
    AtMost 0 (do
      let base ← height
      match ← x base with
      | .ok v => do
        settleTo base
        kept v
      | .error e => do
        unwind base
        failed e) fun _ => 1 := by
  intro m r m' h
  obtain ⟨base, _, hbase, h⟩ := bind_done_iff.mp h
  cases hbase
  obtain ⟨outcome, m₁, -, h⟩ := bind_done_iff.mp h
  cases outcome with
  | ok v =>
    obtain ⟨_, m₂, hsettle, h⟩ := bind_done_iff.mp h
    cases hsettle
    have h₁ := m₁.world.length_settle (m₁.world.stack.length - 1 - m.world.stack.length)
    have h₂ := hkept v _ r m' h
    dsimp only at h₂ ⊢
    omega
  | error e =>
    obtain ⟨_, m₂, hunwind, h⟩ := bind_done_iff.mp h
    cases hunwind
    have h₁ := m₁.world.length_unwind m.world.stack.length
    have h₂ := hfailed e _ r m' h
    dsimp only at h₂ ⊢
    omega

theorem atMost_callClosure (on : Surroundings) (place : Option Nat) (p : Passed) :
    AtMost 0 (callClosure on place p) fun _ => 1 := by
  refine atMost_world fun w => ?_
  dsimp only
  split
  · exact (atMost_push _).bind (Nat.le_refl 0) fun _ => atMost_pure _ (Nat.le_refl 1)
  · exact atMost_conclude atMost_handBack fun _ =>
      (atMost_push _).bind (Nat.le_refl 0) fun _ => atMost_handBack _

theorem atMost_callForeign (on : Surroundings) (f : Foreign) (p : Passed) :
    AtMost 0 (callForeign on f p) fun _ => 1 := by
  have hnull : ∀ (r : Record), AtMost 0 (push .null >>= fun _ => pure r) fun _ => 1 := fun _ =>
    (atMost_push _).bind (Nat.le_refl 0) fun _ => atMost_pure _ (Nat.le_refl 1)
  cases f with
  | sum => exact hnull _
  | codes => exact (atMost_allocText _).bind (Nat.le_refl 0) fun _ => hnull _
  | fixed r =>
    change AtMost 0 (endow r) _
    unfold endow
    split
    · refine atMost_world fun w => ?_
      exact (atMost_same (f := World.allocText) fun _ => rfl).bind (Nat.le_refl 0) fun _ => hnull _
    · dsimp only
      split
      · exact (atMost_share _).bind (Nat.le_refl 0) fun _ => atMost_pure _ (Nat.le_refl 1)
      · exact hnull _
    · exact hnull _
  | code body => exact atMost_conclude atMost_handBack fun _ => hnull _

end Act

/-- A way to call native functions that has one entry at most for the answer. -/
def Caller.Tidy (call : Caller) : Prop :=
  ∀ callee f argc argv receiver, Act.AtMost 0 (call callee f argc argv receiver) fun _ => 1

namespace Act

theorem tidy_callNative (patience depth : Nat) : (callNative patience depth).Tidy := by
  intro callee f argc argv receiver
  cases depth with
  | zero => exact atMost_stop _
  | succ depth =>
    have hnote : ∀ n event, AtMost n (note event) fun _ => n := by
      rintro n event m _ _ ⟨⟩
      dsimp only
      omega
    refine (hnote 0 _).bind (Nat.le_refl 0) fun _ => ?_
    refine AtMost.bind (n := 0) (b := fun _ => 1) (atMost_world fun w => ?_) (Nat.le_refl 0)
      fun r => (hnote 1 _).bind (Nat.le_refl 1) fun _ => atMost_pure _ (Nat.le_refl 1)
    cases f with
    | closure place => exact atMost_callClosure _ place _
    | foreign f => exact atMost_callForeign _ f _

variable {call : Caller}

theorem atMost_nativeOf (s : Slot) : AtMost n (nativeOf s) fun _ => n := by
  unfold nativeOf
  split
  · exact atMost_pure _ (Nat.le_refl n)
  · refine AtMost.reading (fun p => ?_) (atMost_pure _ (Nat.le_refl n)) _
    split <;> exact atMost_pure _ (Nat.le_refl n)

theorem atMost_callSlot (hcall : call.Tidy) (callee : Slot) (receiver : Option Slot)
    (args : List Slot) : AtMost 0 (callSlot call callee receiver args) fun _ => 1 := by
  refine (atMost_nativeOf callee).bind (Nat.le_refl 0) fun found => ?_
  cases found with
  | none => exact atMost_world fun w => atMost_raise _
  | some f =>
    refine atMost_world fun w => (hcall _ f _ _ _).bind (Nat.le_refl 0) fun r => ?_
    exact (atMost_consume r).bind (Nat.le_refl 1) fun _ => atMost_freeText _

theorem atMost_construct (hcall : call.Tidy) (classSlot : Slot) (args : List Slot) :
    AtMost 0 (construct call classSlot args) fun _ => 1 := by
  refine atMost_world fun w => ?_
  dsimp only
  split
  · split
    · refine AtMost.bind (n := 0) (b := fun _ => 1) (AtMost.reading (fun p => ?_) ?_ _)
        (Nat.le_refl 0) fun found => ?_
      · split
        · exact (atMost_share _).bind (Nat.le_refl 0) fun _ => atMost_pure _ (Nat.le_refl 1)
        · exact (atMost_push _).bind (Nat.le_refl 0) fun _ => atMost_pure _ (Nat.le_refl 1)
      · exact (atMost_push _).bind (Nat.le_refl 0) fun _ => atMost_pure _ (Nat.le_refl 1)
      · have hinstance : ∀ id, AtMost 0 (change (·.allocInstance id)) fun _ => 1 := fun id =>
          atMost_change fun w => Nat.le_of_eq (w.length_allocInstance id)
        refine atMost_top fun constructor => ?_
        refine (hinstance _).bind (Nat.zero_le _) fun _ => atMost_top fun made => ?_
        split
        · refine (atMost_callSlot hcall _ _ _).bind (Nat.zero_le _) fun _ => ?_
          refine atMost_drop.bind (by omega) fun _ => ?_
          exact (atMost_settle 1).last (by omega) fun _ => by omega
        · exact (atMost_settle 1).last (by omega) fun _ => by omega
    · exact atMost_raise _
  · exact atMost_raise _

end Act

/-! ## Evaluation -/

variable {on : Surroundings}

mutual

theorem Expr.atMost_eval (hc : on.call.Tidy) : ∀ e : Expr, AtMost 0 (e.eval on) fun _ => 1
  | .null | .bool _ | .number _ | .string _ => by
    rw [Expr.eval]
    exact atMost_push _
  | .name x => by
    rw [Expr.eval]
    exact atMost_loadGlobal _ x
  | .paren e => by
    rw [Expr.eval]
    exact e.atMost_eval hc
  | .array elements => by
    rw [Expr.eval]
    refine (elements.atMost_evalElements hc).bind (Nat.le_refl 0) fun _ => ?_
    exact (atMost_allocArray _).last (by omega) fun _ => by omega
  | .object properties => by
    rw [Expr.eval]
    refine (properties.atMost_eval hc []).bind (Nat.le_refl 0) fun keys => ?_
    exact (atMost_allocObject keys).last (by simp) fun _ => by simp
  | .member target key => by
    rw [Expr.eval]
    refine (target.atMost_eval hc).bind (Nat.le_refl 0) fun _ => ?_
    refine (key.atMost_eval hc).bind (Nat.zero_le _) fun _ => ?_
    refine atMost_peek 1 fun target => atMost_top fun key => ?_
    refine (atMost_getMember target key).bind (Nat.zero_le _) fun _ => ?_
    exact (atMost_settle 2).last (by omega) fun _ => by omega
  | .call callee args => by
    have hargs := args.atMost_evalArgs hc
    have hcallee := callee.atMost_eval hc
    cases callee with
    | member target key =>
      rw [Expr.eval]
      refine hargs.bind (Nat.le_refl 0) fun _ => atMost_newest _ fun given => ?_
      refine (target.atMost_eval hc).bind (Nat.zero_le _) fun _ => ?_
      refine (key.atMost_eval hc).bind (Nat.zero_le _) fun _ => ?_
      refine atMost_peek 1 fun receiver => atMost_top fun name => ?_
      refine (atMost_getMember receiver name).bind (Nat.zero_le _) fun _ => ?_
      refine atMost_top fun method => (atMost_nativeOf method).bind (Nat.zero_le _) fun found => ?_
      cases found with
      | none => exact atMost_world fun w => atMost_raise _
      | some f =>
        refine (atMost_callSlot hc _ _ _).bind (Nat.zero_le _) fun _ => ?_
        exact (atMost_settle _).last (by omega) fun _ => by omega
    | _ =>
      rw [Expr.eval]
      · refine hargs.bind (Nat.le_refl 0) fun _ => atMost_newest _ fun given => ?_
        refine hcallee.bind (Nat.zero_le _) fun _ => atMost_top fun f => ?_
        refine (atMost_callSlot hc _ _ _).bind (Nat.zero_le _) fun _ => ?_
        exact (atMost_settle _).last (by omega) fun _ => by omega
      · simp
  | .specialCall => by
    rw [Expr.eval]
    exact atMost_raise _
  | .construct callee args => by
    rw [Expr.eval]
    refine (callee.atMost_eval hc).bind (Nat.le_refl 0) fun _ => atMost_top fun classSlot => ?_
    refine (args.atMost_evalArgs hc).bind (Nat.zero_le _) fun _ => atMost_newest _ fun given => ?_
    refine (atMost_construct hc _ _).bind (Nat.zero_le _) fun _ => ?_
    exact (atMost_settle _).last (by omega) fun _ => by omega
  | .assign target op value => by
    rw [Expr.eval]
    refine (target.atMost_eval hc).bind (Nat.le_refl 0) fun place => ?_
    refine (value.atMost_eval hc).bind (Nat.zero_le _) fun _ => ?_
    exact (atMost_assignTo on.scope place op).last (by omega) fun _ => by omega
  | .update grows returnsNew arg => by
    rw [Expr.eval]
    refine (arg.atMost_evalPlace hc).bind (Nat.le_refl 0) fun place => ?_
    exact (atMost_updateAt on.scope place grows returnsNew).last (by omega) fun _ => by omega
  | .unary op arg => by
    rw [Expr.eval]
    refine (arg.atMost_eval hc).bind (Nat.le_refl 0) fun _ => ?_
    exact atMost_applyUnary op
  | .binary op left right => by
    rw [Expr.eval]
    refine (left.atMost_eval hc).bind (Nat.le_refl 0) fun _ => ?_
    refine (right.atMost_eval hc).bind (Nat.zero_le _) fun _ => ?_
    exact atMost_applyBinary op
  | .logical op left right => by
    rw [Expr.eval]
    refine (left.atMost_eval hc).bind (Nat.le_refl 0) fun _ => atMost_top fun l => ?_
    split
    · refine (right.atMost_eval hc).bind (Nat.zero_le _) fun _ => ?_
      exact atMost_settle 1
    · exact atMost_pure _ (Nat.le_refl 1)
  | .other => by
    rw [Expr.eval]
    exact atMost_raise _

theorem Items.atMost_evalElements (hc : on.call.Tidy) :
    ∀ items : Items, AtMost 0 (items.evalElements on) fun _ => items.length
  | .nil => by
    rw [Items.evalElements]
    exact atMost_pure _ (Nat.zero_le _)
  | .item e rest => by
    rw [Items.evalElements]
    refine (e.atMost_eval hc).bind (Nat.le_refl 0) fun _ => ?_
    exact (rest.atMost_evalElements hc).last (Nat.zero_le _) fun _ => by simp [Items.length]; omega
  | .hole rest => by
    rw [Items.evalElements]
    refine (atMost_push _).bind (Nat.le_refl 0) fun _ => ?_
    exact (rest.atMost_evalElements hc).last (Nat.zero_le _) fun _ => by simp [Items.length]; omega
  | .spread _ => by
    rw [Items.evalElements]
    exact atMost_raise _

theorem Items.atMost_evalArgs (hc : on.call.Tidy) :
    ∀ items : Items, AtMost 0 (items.evalArgs on) fun _ => items.length
  | .nil => by
    rw [Items.evalArgs]
    exact atMost_pure _ (Nat.zero_le _)
  | .item e rest => by
    rw [Items.evalArgs]
    refine (e.atMost_eval hc).bind (Nat.le_refl 0) fun _ => ?_
    exact (rest.atMost_evalArgs hc).last (Nat.zero_le _) fun _ => by simp [Items.length]; omega
  | .hole rest => by
    rw [Items.evalArgs]
    refine (atMost_push _).bind (Nat.le_refl 0) fun _ => ?_
    exact (rest.atMost_evalArgs hc).last (Nat.zero_le _) fun _ => by simp [Items.length]; omega
  | .spread _ => by
    rw [Items.evalArgs]
    exact atMost_raise _

theorem Properties.atMost_eval (hc : on.call.Tidy) :
    ∀ (properties : Properties) (keys : List String),
      AtMost keys.length (properties.eval on keys) fun keys => keys.length
  | .nil, keys => by
    rw [Properties.eval]
    exact atMost_pure _ (Nat.le_refl _)
  | .keyed key value rest, keys => by
    rw [Properties.eval]
    split
    · exact atMost_raise _
    · refine (value.atMost_eval hc).bind (Nat.zero_le _) fun _ => ?_
      refine (atMost_addProperty keys _).bind (by omega) fun keys => ?_
      exact (rest.atMost_eval hc keys).last (by omega) fun _ => by omega
  | .shorthand name rest, keys => by
    rw [Properties.eval]
    refine (atMost_loadGlobal on.scope name).bind (Nat.zero_le _) fun _ => ?_
    refine (atMost_addProperty keys _).bind (by omega) fun keys => ?_
    exact (rest.atMost_eval hc keys).last (by omega) fun _ => by omega
  | .spread _, _ => by
    rw [Properties.eval]
    exact atMost_raise _
  | .other _, _ => by
    rw [Properties.eval]
    exact atMost_raise _

theorem MemberKey.atMost_eval (hc : on.call.Tidy) :
    ∀ key : MemberKey, AtMost 0 (key.eval on) fun _ => 1
  | .name s => by
    rw [MemberKey.eval]
    exact atMost_push _
  | .computed e => by
    rw [MemberKey.eval]
    exact e.atMost_eval hc
  | .hidden => by
    rw [MemberKey.eval]
    exact atMost_raise _

theorem Target.atMost_eval (hc : on.call.Tidy) :
    ∀ target : Target, AtMost 0 (target.eval on) Location.width
  | .name x => by
    rw [Target.eval]
    exact atMost_pure _ (Nat.zero_le _)
  | .member target key => by
    rw [Target.eval]
    refine (target.atMost_eval hc).bind (Nat.le_refl 0) fun _ => ?_
    refine (key.atMost_eval hc).bind (Nat.zero_le _) fun _ => ?_
    exact atMost_peek 1 fun t => atMost_top fun k => atMost_pure _ (Nat.le_refl 2)
  | .other => by
    rw [Target.eval]
    exact atMost_raise _

theorem Expr.atMost_evalPlace (hc : on.call.Tidy) :
    ∀ e : Expr, AtMost 0 (e.evalPlace on) Location.width
  | .name x => by
    rw [Expr.evalPlace]
    exact atMost_pure _ (Nat.zero_le _)
  | .member target key => by
    rw [Expr.evalPlace]
    refine (target.atMost_eval hc).bind (Nat.le_refl 0) fun _ => ?_
    refine (key.atMost_eval hc).bind (Nat.zero_le _) fun _ => ?_
    exact atMost_peek 1 fun t => atMost_top fun k => atMost_pure _ (Nat.le_refl 2)
  | .paren e => by
    rw [Expr.evalPlace]
    exact e.atMost_evalPlace hc
  | .null | .bool _ | .number _ | .string _ | .array _ | .object _ | .call _ _ | .specialCall
  | .construct _ _ | .assign _ _ _ | .update _ _ _ | .unary _ _ | .binary _ _ _ | .logical _ _ _
  | .other => by
    simp only [Expr.evalPlace]
    exact atMost_raise _

end

/-! ## Statements -/

theorem Act.atMost_repeatWhile {test : Act Bool} {body : Act Unit} {n : Nat}
    (ht : AtMost 0 test fun _ => 0) (hb : AtMost n body fun _ => n) (patience : Nat) :
    AtMost n (repeatWhile test body patience) fun _ => n := by
  induction patience with
  | zero => exact atMost_stop _
  | succ patience ih =>
    rw [repeatWhile_succ]
    refine ht.bind (Nat.zero_le _) fun go => ?_
    cases go with
    | false => exact atMost_pure _ (Nat.le_refl _)
    | true => exact hb.bind (Nat.le_refl _) fun _ => ih.last (by omega) fun _ => by omega

theorem Declarators.atMost_exec (hc : on.call.Tidy) (d : Declarators) :
    AtMost 0 (d.exec on) fun _ => 0 := by
  induction d with
  | nil =>
    rw [Declarators.exec]
    exact atMost_pure _ (Nat.le_refl 0)
  | name x init rest ih =>
    have hdeclare : AtMost 1 (declare on.scope x >>= fun _ => rest.exec on) fun _ => 0 :=
      (atMost_declare on.scope x).bind (Nat.le_refl 1) fun _ => ih
    cases init with
    | some e =>
      rw [Declarators.exec]
      exact (e.atMost_eval hc).bind (Nat.le_refl 0) fun _ => hdeclare
    | none =>
      rw [Declarators.exec]
      exact (atMost_push _).bind (Nat.le_refl 0) fun _ => hdeclare
  | pattern rest _ =>
    rw [Declarators.exec]
    exact atMost_raise _

theorem Expr.atMost_test (hc : on.call.Tidy) (e : Expr) : AtMost 0 (e.test on) fun _ => 0 := by
  refine (e.atMost_eval hc).bind (Nat.le_refl 0) fun _ => atMost_top fun s => ?_
  exact atMost_drop.bind (Nat.le_refl 1) fun _ => atMost_pure _ (Nat.le_refl 0)

mutual

theorem Statement.atMost_exec (hc : on.call.Tidy) :
    ∀ s : Statement, AtMost 1 (s.exec on) fun _ => 1
  | .expression e => by
    rw [Statement.exec]
    exact (e.atMost_eval hc).bind (Nat.zero_le _) fun _ => atMost_settle 1
  | .declare declarators => by
    rw [Statement.exec]
    exact (declarators.atMost_exec hc).last (Nat.zero_le _) fun _ => Nat.le_refl 1
  | .block body => by
    rw [Statement.exec]
    exact body.atMost_exec hc
  | .branch test yes => by
    rw [Statement.exec]
    refine (test.atMost_test hc).bind (Nat.zero_le _) fun go => ?_
    cases go with
    | true => exact yes.atMost_exec hc
    | false => exact atMost_pure _ (Nat.le_refl 1)
  | .choice test yes no => by
    rw [Statement.exec]
    refine (test.atMost_test hc).bind (Nat.zero_le _) fun go => ?_
    cases go with
    | true => exact yes.atMost_exec hc
    | false => exact no.atMost_exec hc
  | .loop test body => by
    rw [Statement.exec]
    exact atMost_repeatWhile (test.atMost_test hc) (body.atMost_exec hc) _
  | .empty => by
    rw [Statement.exec]
    exact atMost_pure _ (Nat.le_refl 1)
  | .other => by
    rw [Statement.exec]
    exact atMost_raise _

theorem Statements.atMost_exec (hc : on.call.Tidy) :
    ∀ body : Statements, AtMost 1 (body.exec on) fun _ => 1
  | .nil => by
    rw [Statements.exec]
    exact atMost_pure _ (Nat.le_refl 1)
  | .cons s rest => by
    rw [Statements.exec]
    exact (s.atMost_exec hc).bind (Nat.le_refl 1) fun _ => rest.atMost_exec hc

end

theorem Act.atMost_execScript (hc : on.call.Tidy) (code : String) :
    AtMost 0 (execScript on code) fun _ => 1 := by
  unfold execScript
  split
  · exact (atMost_push _).bind (Nat.le_refl 0) fun _ => Statements.atMost_exec hc _
  · exact atMost_raise _

theorem Act.AtMost.recover {α : Type} {x : Act α} {n : Nat} (hx : AtMost 0 x fun _ => n) :
    AtMost 0 (recover x) (whenOkay n) := by
  intro m r m' h
  rw [recover_eq] at h
  cases hrun : x m with
  | done a m₁ =>
    rw [hrun] at h
    cases h
    exact hx m a m' hrun
  | raised fault m₁ =>
    rw [hrun] at h
    cases h
    exact m₁.world.length_unwind _
  | stopped halt =>
    rw [hrun] at h
    cases h

theorem Act.atMost_runScript (hc : on.call.Tidy) (code : String) :
    AtMost 0 (runScript on code) (whenOkay 1) :=
  (atMost_execScript hc code).recover

/-! ## What is added -/

variable {α : Type} {t : Limits} {m m' : Machine} {x : Act α} {b : α → Nat} {r : α}

/-- What neither takes nor adds more than it should adds exactly that. -/
theorem Act.Shifts.adds (hx : Shifts t True 0 x b) (hb : AtMost 0 x b)
    (hg : m.Good t m.world.stack) (hrun : x m = .done r m') :
    m'.Good t m'.world.stack ∧
      ∃ added, m'.world.stack = added ++ m.world.stack ∧ added.length = b r := by
  obtain ⟨hg', hover⟩ := Spec.after (hx m.world.stack) hg (over_refl _) hrun
  obtain ⟨⟨added, hadded⟩, hlow⟩ := hover
  have hhigh := hb m r m' hrun
  refine ⟨hg'.raise ⟨added, hadded⟩ (List.suffix_refl _), added, hadded.symm, ?_⟩
  rw [← hadded, List.length_append] at hlow hhigh
  omega

/-- An expression leaves its value on the stack that it found, and nothing else. -/
theorem Expr.eval_adds (hs : on.call.Safe t) (ht : on.call.Tidy) (e : Expr)
    (hg : m.Good t m.world.stack) (hrun : e.eval on m = .done () m') :
    m'.Good t m'.world.stack ∧ m'.world.stack = m'.world.top :: m.world.stack := by
  obtain ⟨hg', added, hadded, hlength⟩ := (e.shifts_eval hs).adds (e.atMost_eval ht) hg hrun
  obtain ⟨s, rfl⟩ := List.length_eq_one_iff.mp hlength
  exact ⟨hg', by rw [World.top_of_stack hadded, hadded]; rfl⟩

end Enclave
