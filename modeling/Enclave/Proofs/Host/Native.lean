import Enclave.Host.Native
import Enclave.Proofs.Host.Perform

/-! # Native calls are safe

Whatever host code does, a native call leaves the stack under it alone and adds the reference of its
answer. By induction on the code for one call, and on the depth for calls inside one another.
-/
namespace Enclave

open Act

namespace Act

variable {t : Limits} {may : Prop} {o : List Slot} {on : Surroundings}

/-- Every tree of requests, whatever it asks for. -/
theorem over_runCode (hc : on.call.Safe t) (code : HostCode) :
    Spec t may o (Over 0 o) (runCode on o.length code) fun r => Over (whenOkay 1 r) o := by
  have hnote : Spec t may o (Over 0 o) (note .resumed) fun _ => Over 0 o :=
    spec_note rfl fun h => by cases h
  induction code with
  | finish v =>
    rw [runCode]
    exact (over_secure _).bind fun _ => over_pure _ (Nat.le_refl 1)
  | fail e =>
    rw [runCode]
    exact over_pure _ (Nat.le_refl 0)
  | panic message =>
    rw [runCode]
    exact over_pure _ (Nat.le_refl 0)
  | request r next ih =>
    rw [runCode]
    exact (over_perform hc r).bind fun reply => hnote.bind fun _ => ih reply
  | register name label captured body next _ ih =>
    rw [runCode]
    exact (over_registerClosure name label captured body).bind fun reply =>
      hnote.bind fun _ => ih reply
  | createFunction label captured body next _ ih =>
    rw [runCode]
    refine (over_createClosure label captured body).bind fun reply => ?_
    refine Spec.bind (Q := fun _ => Over 0 o) ?_ fun _ => ih reply
    exact hnote.weaken id (fun _ h => h.mono (Nat.zero_le _)) fun _ _ h => h

/-! ## Arguments -/

theorem shifts_copyArguments (records : List Record) (index : Nat) :
    Shifts t may 0 (copyArguments index records) fun _ => 0 := by
  induction records generalizing index with
  | nil =>
    rw [copyArguments]
    exact fun _ => over_pure _ (Nat.le_refl 0)
  | cons r rest ih =>
    intro o
    rw [copyArguments]
    refine (shifts_copyRecord r).bind (Nat.le_refl 0) fun outcome => ?_
    cases outcome with
    | error e => exact over_pure _ (Nat.zero_le _)
    | ok v => exact (ih _).bind (Nat.zero_le _) fun more => over_pure _ (Nat.zero_le _)

theorem shifts_collectArguments (limit : Nat) (p : Passed) :
    Shifts t may 0 (collectArguments limit p) fun _ => 0 := by
  intro o
  unfold collectArguments
  dsimp only
  split
  · exact over_pure _ (Nat.le_refl 0)
  · split
    · exact over_pure _ (Nat.le_refl 0)
    · split
      · exact over_pure _ (Nat.le_refl 0)
      · split
        · exact over_pure _ (Nat.le_refl 0)
        · exact shifts_copyArguments _ _ o

theorem shifts_copyReceiver (p : Passed) : Shifts t may 0 (copyReceiver p) fun _ => 0 := by
  intro o
  unfold copyReceiver
  split
  · exact over_pure _ (Nat.le_refl 0)
  · refine (shifts_copyRecord _).bind (Nat.le_refl 0) fun outcome => ?_
    cases outcome <;> exact over_pure _ (Nat.zero_le _)

/-! ## Closures and foreign functions -/

theorem over_runBinding (hc : on.call.Safe t) (config : Config) (b : Binding) (p : Passed) :
    Spec t may o (Over 0 o) (runBinding on o.length config b p)
      fun r => Over (whenOkay 1 r) o := by
  refine (shifts_collectArguments _ p).bind (Nat.le_refl 0) fun collected => ?_
  cases collected with
  | error e => exact over_pure _ (Nat.zero_le _)
  | ok args =>
    refine (shifts_copyReceiver p).bind (Nat.le_refl 0) fun copied => ?_
    cases copied with
    | error e => exact over_pure _ (Nat.zero_le _)
    | ok receiver =>
      refine Spec.bind (Q := fun _ => Over 0 o) (spec_note rfl fun h => by cases h) fun _ => ?_
      exact over_runCode hc _

/-- All that a call held is dropped, but its result. -/
theorem shifts_callClosure (hc : on.call.Safe t) (place : Option Nat) (p : Passed) :
    Shifts t may 0 (callClosure on place p) fun _ => 1 := by
  refine Shifts.of_exact fun o => spec_world fun w => ?_
  split
  · exact ((shifts_push _).bind (Nat.le_refl 0) fun _ => over_pure _ (by simp) :
      Spec t may o (Over 0 o) _ _).here
  · refine spec_height ((over_runBinding hc _ _ p).here.bind fun outcome => ?_)
    cases outcome with
    | ok v => exact (spec_settleTo o).bind fun _ => shifts_handBack v o
    | error message =>
      refine (spec_unwind o).bind fun _ => Spec.here ?_
      exact (shifts_push _).bind (Nat.le_refl 0) fun _ => shifts_handBack _ o

theorem shifts_endow (r : Record) : Shifts t may 0 (endow r) fun _ => 1 := by
  intro o
  unfold endow
  split
  · refine spec_world fun w => ?_
    refine Spec.bind (Q := fun _ => Over 0 o) ?_ fun _ => ?_
    · exact over_change (World.move_allocText t) fun _ h => h
    · exact (shifts_push _).bind (Nat.le_refl 0) fun _ => over_pure _ (by simp)
  · split
    · exact (shifts_share _).bind (Nat.le_refl 0) fun _ => over_pure _ (by simp)
    · exact (shifts_push _).bind (Nat.le_refl 0) fun _ => over_pure _ (by simp)
  · exact (shifts_push _).bind (Nat.le_refl 0) fun _ => over_pure _ (by simp)

theorem shifts_callForeignCode (hc : on.call.Safe t) (code : HostCode) :
    Shifts t may 0 (callForeignCode on code) fun _ => 1 := by
  refine Shifts.of_exact fun o => spec_height ((over_runCode hc code).here.bind fun outcome => ?_)
  cases outcome with
  | ok v => exact (spec_settleTo o).bind fun _ => shifts_handBack v o
  | error message =>
    refine (spec_unwind o).bind fun _ => Spec.here ?_
    exact (shifts_push _).bind (Nat.le_refl 0) fun _ => over_pure _ (by simp)

theorem shifts_callForeign (hc : on.call.Safe t) (f : Foreign) (p : Passed) :
    Shifts t may 0 (callForeign on f p) fun _ => 1 := by
  intro o
  unfold callForeign
  split
  · exact (shifts_push _).bind (Nat.le_refl 0) fun _ => over_pure _ (by simp)
  · refine (shifts_allocText _).bind (Nat.le_refl 0) fun text => ?_
    exact (shifts_push _).bind (Nat.zero_le _) fun _ => over_pure _ (by simp)
  · exact shifts_endow _ o
  · exact shifts_callForeignCode hc _ o

theorem shifts_callPassed (hc : on.call.Safe t) (f : NativeFunction) (p : Passed) :
    Shifts t may 0 (callPassed on f p) fun _ => 1 := by
  unfold callPassed
  split
  · exact shifts_callClosure hc _ p
  · exact shifts_callForeign hc _ p

/-! ## Calls -/

/-- What is lent to a call is lent from the moment at which it begins to the one at which it ends. -/
theorem over_noted {callee : Option CellId} {f : NativeFunction} {p : Passed} {x : Act Record}
    (hl : ∀ id ∈ (Event.entered callee f p.argc p.argv p.receiver).lent, Slot.cell id ∈ o)
    (hx : Spec t False o (Over 0 o) x fun _ => Over 1 o) :
    Spec t False o (Over 0 o) (noted callee f p x) fun _ => Over 1 o := by
  intro m hm hp
  have h := hx (m.noting (.entered callee f p.argc p.argv p.receiver)) (hm.enter hl) hp
  have he : noted callee f p x m =
      Act.bind x (fun r m' => .done r (m'.noting (.returned r)))
        (m.noting (.entered callee f p.argc p.argv p.receiver)) := rfl
  rw [he]
  unfold Act.bind
  cases hr : x (m.noting (.entered callee f p.argc p.argv p.receiver)) with
  | done r m' =>
    rw [hr] at h
    refine ⟨h.1.leave r, ?_, h.2.2⟩
    change (openCalls m'.moments).tail = openCalls m.moments
    rw [h.2.1]
    rfl
  | raised e m' =>
    rw [hr] at h
    exact h.1.elim
  | stopped halt =>
    rw [hr] at h
    exact h

/-- Calls to any depth are safe. -/
theorem safe_callNative (t : Limits) (patience depth : Nat) :
    Caller.Safe t (callNative patience depth) := by
  induction depth with
  | zero => exact fun _ _ _ _ _ _ _ => spec_stop _
  | succ depth ih =>
    intro callee f argc argv receiver o hl
    refine over_noted hl (spec_world fun w => ?_)
    exact shifts_callPassed ih f _ o

end Act

theorem Budget.safe_surroundings (t : Limits) (b : Budget) (scope : ScopeId) :
    (b.surroundings scope).call.Safe t :=
  safe_callNative t b.patience b.depth

end Enclave
