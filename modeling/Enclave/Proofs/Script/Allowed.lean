import Enclave.Proofs.Act.Way
import Enclave.Proofs.Script.Access
import Enclave.Proofs.Script.Instances
import Enclave.Proofs.Script.Reaches
import Enclave.Proofs.World.Bare

/-! # What an act in a bare world may do

An act stays within an allowance when it goes by the steps of one, however it ends, and nothing but the
budget stops it. Members, globals and calls are taken one by one here: in a bare world no access is
refused, and there is nothing that could be called.
-/
namespace Enclave

open World (Bare Leads)

/-- Is the place a member? -/
def Location.isMember : Location → Bool
  | global _ => false
  | member _ _ => true

/-- The outcome was come to from the world by steps that are allowed. -/
def Outcome.Stays {α : Type} (a : Allowance) (w : World) : Outcome α → Prop
  | .done _ m | .raised _ m => w.Leads a m.world
  | .stopped halt => halt.why = .exhausted ∧ w.Leads a halt.machine.world

theorem Outcome.Stays.leads {α : Type} {a : Allowance} {w : World} {r : Outcome α}
    (h : r.Stays a w) : w.Leads a r.machine.world := by
  cases r with
  | done | raised => exact h
  | stopped => exact h.2

namespace Act

variable {α β : Type} {a : Allowance} {x y : Act α} {f : α → Act β} {m m' : Machine}

/-- From a machine with a bare world on the act does what is allowed. -/
def StaysAt (a : Allowance) (x : Act α) (m : Machine) : Prop :=
  m.world.Bare → (x m).Stays a m.world

def Stays (a : Allowance) (x : Act α) : Prop :=
  ∀ m, StaysAt a x m

/-! ## Rules -/

theorem staysAt_congr (h : x m = y m) (hy : StaysAt a y m) : StaysAt a x m := by
  intro hb
  rw [h]
  exact hy hb

theorem staysAt_done {r : α} (h : x m = .done r m') (hl : m.world.Leads a m'.world) :
    StaysAt a x m := by
  intro _
  rw [h]
  exact hl

theorem staysAt_raised {fault : Fault} (h : x m = .raised fault m) : StaysAt a x m := by
  intro _
  rw [h]
  exact .refl _

theorem StaysAt.leads (h : StaysAt a x m) (hb : m.world.Bare) {r : α} (hrun : x m = .done r m') :
    m.world.Leads a m'.world := by
  have hx := h hb
  rwa [hrun] at hx

theorem Stays.leads (h : Stays a x) (hb : m.world.Bare) {r : α} (hrun : x m = .done r m') :
    m.world.Leads a m'.world :=
  (h m).leads hb hrun

theorem Stays.leads_then (hx : Stays a x) (hb : m.world.Bare) {z : Act β} {m₁ : Machine} {r : α}
    {s : β} (hrun : x m = .done r m₁) (hz : Stays a z) (hrun' : z m₁ = .done s m') :
    m.world.Leads a m'.world :=
  (hx.leads hb hrun).trans (hz.leads ((hx.leads hb hrun).bare hb) hrun')

/-- What follows an act goes on from where the act ended. -/
theorem leads_bind (hb : (x m).machine.world.Bare) (hf : ∀ r, Stays a (f r)) :
    (x m).machine.world.Leads a ((x >>= f) m).machine.world := by
  change Leads a _ (Act.bind x f m).machine.world
  unfold Act.bind
  cases hrun : x m with
  | done r m₁ =>
    rw [hrun] at hb
    exact (hf r m₁ hb).leads
  | raised | stopped => exact .refl _

theorem StaysAt.bind (hx : StaysAt a x m)
    (hf : ∀ r m', x m = .done r m' → StaysAt a (f r) m') : StaysAt a (x >>= f) m := by
  intro hb
  have hstart := hx hb
  change (Act.bind x f m).Stays a m.world
  unfold Act.bind
  cases hrun : x m with
  | done r m₁ =>
    rw [hrun] at hstart
    have hrest := hf r m₁ hrun (hstart.bare hb)
    dsimp only
    cases hend : f r m₁ with
    | done | raised =>
      rw [hend] at hrest
      exact hstart.trans hrest
    | stopped halt =>
      rw [hend] at hrest
      exact ⟨hrest.1, hstart.trans hrest.2⟩
  | raised | stopped =>
    rw [hrun] at hstart
    exact hstart

theorem Stays.bind (hx : Stays a x) (hf : ∀ r, Stays a (f r)) : Stays a (x >>= f) :=
  fun m => (hx m).bind fun r m' _ => hf r m'

theorem stays_pure (r : α) : Stays a (pure r) :=
  fun _ _ => .refl _

theorem stays_raise (fault : Fault) : Stays a (raise fault : Act α) :=
  fun _ _ => .refl _

theorem stays_exhausted : Stays a (stop .exhausted : Act α) :=
  fun _ _ => ⟨rfl, .refl _⟩

theorem stays_world {f : World → Act β} (hf : ∀ w, Stays a (f w)) : Stays a (world >>= f) :=
  fun m => hf m.world m

theorem stays_top {f : Slot → Act β} (hf : ∀ s, Stays a (f s)) : Stays a (top >>= f) :=
  fun m => hf m.world.top m

theorem stays_peek {f : Slot → Act β} (n : Nat) (hf : ∀ s, Stays a (f s)) :
    Stays a (peek n >>= f) :=
  fun m => hf (m.world.stack.getD n .null) m

theorem stays_newest {f : List Slot → Act β} (n : Nat) (hf : ∀ slots, Stays a (f slots)) :
    Stays a (newest n >>= f) :=
  fun m => hf (m.world.newest n) m

theorem stays_change {f : World → World} (hf : ∀ w, Leads a w (f w)) : Stays a (change f) :=
  fun m _ => hf m.world

theorem stays_push (v : Scalar) : Stays a (push v) :=
  stays_change fun w => World.leads_share a w (.scalar v)

theorem stays_share (s : Slot) : Stays a (share s) :=
  stays_change fun w => World.leads_share a w s

theorem stays_drop : Stays a drop :=
  stays_change (World.leads_drop a)

theorem stays_settle (n : Nat) : Stays a (settle n) :=
  stays_change fun w => World.leads_settle a w n

/-- A fault only gives up entries. -/
theorem leads_recover (x : Act α) (m : Machine) :
    (x m).machine.world.Leads a (recover x m).machine.world := by
  rw [recover_eq]
  cases x m with
  | done | stopped => exact .refl _
  | raised fault m' => exact World.leads_unwind a m'.world _

theorem StaysAt.recover (hx : StaysAt a x m) : StaysAt a (recover x) m := by
  intro hb
  have h := hx hb
  have hend := leads_recover (a := a) x m
  rw [recover_eq] at hend ⊢
  cases hrun : x m with
  | done | stopped =>
    rw [hrun] at h
    exact h
  | raised fault m' =>
    rw [hrun] at h hend
    exact Leads.trans h hend

/-! ## Globals -/

variable {scope : ScopeId} {name : String}

/-- A copy of a global, where no other access is in the way. -/
theorem copyGlobal_eq (hr : m.world.canRead (.scope scope) = true) (name : String) :
    copyGlobal scope name m =
      (match m.world.global? scope name with
        | some s => share s >>= fun _ => pure true
        | none => pure false) m := by
  have hfree : Unguarded (match m.world.global? scope name with
      | some s => share s >>= fun _ => pure true
      | none => pure false) := by
    cases m.world.global? scope name with
    | some s => exact (unguarded_share s).then_pure true
    | none => exact unguarded_pure false
  change (if m.world.canRead (.scope scope) = true then
    guarded ⟨.scope scope, false⟩ _ else _) m = _
  rw [if_pos hr]
  exact hfree ⟨.scope scope, false⟩ m

theorem loadGlobal_eq (hr : m.world.canRead (.scope scope) = true) (name : String) :
    loadGlobal scope name m =
      match m.world.global? scope name with
      | some s => share s m
      | none => .raised (.unbound name) m := by
  change (copyGlobal scope name >>= fun _ => _) m = _
  rw [bind_congr (copyGlobal_eq hr name)]
  cases m.world.global? scope name <;> rfl

theorem loadGlobal_unbound (hr : m.world.canRead (.scope scope) = true)
    (hx : ¬ m.world.Binds scope name) : loadGlobal scope name m = .raised (.unbound name) m := by
  have hnone : m.world.global? scope name = none := by simpa [World.Binds] using hx
  rw [loadGlobal_eq hr, hnone]

theorem storeGlobal_unbound (hr : m.world.canRead (.scope scope) = true)
    (hx : ¬ m.world.Binds scope name) : storeGlobal scope name m = .raised (.unbound name) m := by
  have hnone : m.world.global? scope name = none := by simpa [World.Binds] using hx
  change (copyGlobal scope name >>= fun _ => _) m = _
  rw [bind_congr (copyGlobal_eq hr name), hnone]
  rfl

theorem stays_copyGlobal (name : String) : Stays a (copyGlobal scope name) := by
  refine fun m hb => staysAt_congr (copyGlobal_eq (hb.canRead _) name) ?_ hb
  cases m.world.global? scope name with
  | some s => exact (stays_share s).bind (fun _ => stays_pure true) m
  | none => exact stays_pure false m

theorem stays_loadGlobal (name : String) : Stays a (loadGlobal scope name) := by
  refine (stays_copyGlobal name).bind fun found => ?_
  cases found with
  | true => exact stays_pure ()
  | false => exact stays_raise _

/-- A name may be given a value when it may be bound, or is already. -/
theorem staysAt_declare (h : a.names name ∨ m.world.Binds a.scope name) :
    StaysAt a (declare a.scope name) m := by
  intro hb
  have hdone := declare_eq a.scope name m
  rw [if_pos (hb.canWrite _)] at hdone
  have hexchange : m.world.Leads a (m.world.exchangeGlobal a.scope name) :=
    (World.Step.exchangeGlobal m.world h).leads
  exact staysAt_done hdone (hexchange.trans (World.leads_drop a _)) hb

theorem stays_storeGlobal (name : String) : Stays a (storeGlobal a.scope name) := by
  intro m hb
  by_cases hx : m.world.Binds a.scope name
  · refine StaysAt.bind (stays_copyGlobal name m) (fun found m₁ hcopy => ?_) hb
    have hx₁ := ((stays_copyGlobal name m).leads hb hcopy).binds hx
    cases found with
    | true =>
      refine StaysAt.bind (stays_drop m₁) fun _ m₂ hdrop => ?_
      cases hdrop
      exact staysAt_declare (.inr ((World.leads_drop a m₁.world).binds hx₁))
    | false => exact stays_raise _ m₁
  · exact staysAt_raised (storeGlobal_unbound (hb.canRead _) hx) hb

/-! ## Members -/

/-- A cell that cannot be seen is as good as none. -/
theorem reading_hidden {id : CellId} {z : Payload → Act α} {refused : Act α}
    (hv : m.world.visible? id = none) (hr : Unguarded refused) :
    reading id z refused m = refused m := by
  change (if m.world.canRead (.payload id) = true then
    guarded ⟨.payload id, false⟩ _ else refused) m = _
  have hguarded : ∀ y : Act α, y { m with world := m.world.guard ⟨.payload id, false⟩ } =
      refused { m with world := m.world.guard ⟨.payload id, false⟩ } →
      guarded ⟨.payload id, false⟩ y m = guarded ⟨.payload id, false⟩ refused m := by
    intro y hy
    unfold guarded
    rw [hy]
  by_cases hread : m.world.canRead (.payload id) = true
  · have hnone : m.world.heap.payload? id = none := by simpa [World.visible?, hread] using hv
    rw [if_pos hread]
    have hnone' : (m.world.guard ⟨.payload id, false⟩).heap.payload? id = none := hnone
    refine (hguarded _ ?_).trans (hr _ m)
    rw [bind_done (world_eq _), hnone']
  · rw [if_neg hread]

/-- A read of a member fails or brings one slot to the top. -/
theorem getMember_cases (target key : Slot) (m : Machine) :
    (∃ fault, getMember target key m = .raised fault m) ∨
      ∃ s, getMember target key m = share s m := by
  cases target with
  | scalar v =>
    cases v with
    | null => exact .inl ⟨_, rfl⟩
    | bool | number => exact .inr ⟨.null, rfl⟩
    | string s =>
      right
      by_cases hname : m.world.propertyName key = "length"
      · refine ⟨.scalar (.number (Number.ofWhole s.length)), ?_⟩
        change (if m.world.propertyName key = "length" then _ else _ : Act Unit) m = _
        rw [if_pos hname]
        rfl
      · refine ⟨.null, ?_⟩
        change (if m.world.propertyName key = "length" then _ else _ : Act Unit) m = _
        rw [if_neg hname]
        rfl
  | cell id =>
    right
    cases hv : m.world.visible? id with
    | some p => exact ⟨_, getMember_eq hv key⟩
    | none => exact ⟨.null, reading_hidden hv (unguarded_push .null)⟩

theorem stays_getMember (target key : Slot) : Stays a (getMember target key) := by
  intro m
  rcases getMember_cases target key m with ⟨fault, h⟩ | ⟨s, h⟩
  · exact staysAt_raised h
  · exact staysAt_congr h (stays_share s m)

/-- Into a member goes a scalar, or what may be put there. -/
theorem staysAt_setMember (target key : Slot) (h : a.members ∨ m.world.top.cell? = none) :
    StaysAt a (setMember target key) m := by
  have hexchange : ∀ id {f}, Payload.Swaps f → StaysAt a (change (·.exchangePayload id f)) m :=
    fun id f hf _ => (World.Step.exchangePayload m.world id hf h).leads
  cases target with
  | scalar v => exact stays_raise _ m
  | cell id =>
    refine staysAt_congr (bind_done (world_eq m)) ?_
    refine StaysAt.bind (staysAt_congr (writing_eq (fun p => ?_) (unguarded_raise _) id m) ?_)
      fun _ m₁ _ => stays_drop m₁
    · cases p with
      | array elements =>
        dsimp only
        cases elementIndex? key with
        | none => exact unguarded_raise _
        | some index =>
          dsimp only
          split
          · exact unguarded_exchange _ _
          · exact unguarded_raise _
      | object => exact unguarded_exchange _ _
      | function | classDesc | task => exact unguarded_raise _
    · cases m.world.writable? id with
      | none => exact stays_raise _ m
      | some p =>
        cases p with
        | array elements =>
          dsimp only
          cases elementIndex? key with
          | none => exact stays_raise _ m
          | some index =>
            dsimp only
            split
            · exact hexchange id (Payload.swaps_putElement index)
            · exact stays_raise _ m
        | object => exact hexchange id (Payload.swaps_putProperty _)
        | function | classDesc | task => exact stays_raise _ m

/-! ## Places -/

theorem stays_load (place : Location) : Stays a (load scope place) := by
  cases place with
  | «global» name => exact stays_loadGlobal name
  | member target key => exact stays_getMember target key

theorem staysAt_store (place : Location)
    (h : place.isMember = true → a.members ∨ m.world.top.cell? = none) :
    StaysAt a (store a.scope place) m := by
  cases place with
  | «global» name => exact stays_storeGlobal name m
  | member target key => exact staysAt_setMember target key (h rfl)

/-! ## Operators -/

theorem stays_addProperty (keys : List String) (key : String) : Stays a (addProperty keys key) := by
  unfold addProperty
  split
  · exact (stays_change fun w => World.leads_replaceBelow a w _).bind fun _ => stays_pure _
  · exact stays_pure _

/-- A scalar that has just been pushed may be stored anywhere. -/
theorem stays_pushStore (v : Scalar) (place : Location) :
    Stays a (push v >>= fun _ => store a.scope place) := by
  refine fun m => (stays_push v m).bind fun _ m₁ hpush => ?_
  cases hpush
  exact staysAt_store place fun _ => .inr rfl

/-- Only a plain assignment to a member puts a value of any kind there. -/
theorem stays_assignTo (place : Location) (op : AssignOp)
    (h : op = .set → place.isMember = true → a.members) : Stays a (assignTo a.scope place op) := by
  cases op with
  | set =>
    refine stays_top fun right => (stays_share right).bind fun _ => ?_
    refine Stays.bind (fun m => staysAt_store place fun hp => .inl (h rfl hp)) fun _ => ?_
    exact stays_settle _
  | add | subtract | multiply =>
    refine stays_top fun right => (stays_load place).bind fun _ => stays_top fun left => ?_
    refine stays_world fun w => stays_drop.bind fun _ => (stays_push _).bind fun _ => ?_
    rw [← bind_bind]
    exact (stays_pushStore _ place).bind fun _ => stays_settle _
  | other => exact stays_raise _

theorem stays_updateAt (place : Location) (grows returnsNew : Bool) :
    Stays a (updateAt a.scope place grows returnsNew) := by
  refine (stays_load place).bind fun _ => stays_top fun current => ?_
  refine stays_drop.bind fun _ => ?_
  rw [← bind_bind]
  refine (stays_pushStore _ place).bind fun _ => (stays_push _).bind fun _ => ?_
  exact stays_settle _

theorem stays_applyUnary (op : UnaryOp) : Stays a (applyUnary op) := by
  have hanswer : ∀ v, Stays a (push v >>= fun _ => settle 1) := fun v =>
    (stays_push v).bind fun _ => stays_settle 1
  refine stays_top fun arg => stays_world fun w => ?_
  cases op with
  | minus | plus | negate | typeOf => exact hanswer _
  | invert | discard | delete => exact stays_raise _

theorem stays_applyBinary (op : BinaryOp) : Stays a (applyBinary op) := by
  refine stays_peek 1 fun l => stays_top fun r => stays_world fun w => ?_
  exact (stays_push _).bind fun _ => stays_settle 2

/-! ## Calls -/

/-- No slot refers to a native function. -/
theorem nativeOf_bare (hb : m.world.Bare) (s : Slot) : nativeOf s m = .done none m := by
  have hnone : m.world.native? s = none := by
    cases s with
    | scalar v => rfl
    | cell id =>
      refine Option.eq_none_iff_forall_ne_some.mpr fun f hf => hb.noFunction id f ?_
      exact World.payload?_of_visible (World.native?_eq_some_iff.mp hf)
  rw [nativeOf_run, hnone]

/-- A script that calls something fails before anything is called. -/
theorem stays_callSlot (call : Caller) (callee : Slot) (receiver : Option Slot)
    (args : List Slot) : Stays a (callSlot call callee receiver args) := by
  intro m hb
  exact staysAt_raised ((bind_done (nativeOf_bare hb callee)).trans rfl) hb

theorem stays_instantiate (id : CellId) : Stays a (instantiate id) := by
  have hnone : Stays a (push .null >>= fun _ => pure false) :=
    (stays_push .null).bind fun _ => stays_pure false
  refine Stays.bind (fun m => staysAt_congr
    (reading_eq (fun p => ?_) ((unguarded_push _).then_pure _) id m) ?_) fun found => ?_
  · cases p with
    | classDesc => exact (unguarded_share _).then_pure _
    | array | object | function | task => exact (unguarded_push _).then_pure _
  · cases m.world.visible? id with
    | none => exact hnone m
    | some p =>
      cases p with
      | classDesc => exact (stays_share _).bind (fun _ => stays_pure _) m
      | array | object | function | task => exact hnone m
  · refine stays_top fun constructor => ?_
    refine Stays.bind (stays_change fun w => World.leads_allocInstance a w id) fun _ => ?_
    exact stays_top fun made => stays_pure _

theorem stays_construct (call : Caller) (classSlot : Slot) (args : List Slot) :
    Stays a (construct call classSlot args) := by
  cases classSlot with
  | scalar v => exact stays_world fun w => stays_raise _
  | cell id =>
    intro m
    by_cases hkind : m.world.kindOf (.cell id) = .classDesc
    · refine staysAt_congr (construct_instantiate call args hkind) ?_
      refine Stays.bind (stays_instantiate id) (fun r => ?_) m
      split
      · refine (stays_callSlot call _ _ _).bind fun _ => ?_
        exact stays_drop.bind fun _ => stays_settle 1
      · exact stays_settle 1
    · refine staysAt_congr (bind_done (world_eq m)) ?_
      dsimp only
      rw [if_neg hkind]
      exact stays_raise _ m

end Act
end Enclave
