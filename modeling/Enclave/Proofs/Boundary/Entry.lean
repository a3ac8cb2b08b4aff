import Enclave.Boundary.Entry
import Enclave.Proofs.Script.Evaluate

/-! # Entry points are accounted for

What each entry point takes from the working stack and leaves there: a record or handle that is
handed over is used up, one that is given out adds its reference, and all else leaves nothing behind.
No entry point ends with a fault.
-/
namespace Enclave.Act

variable {t : Limits} {may : Prop} {o : List Slot} {on : Surroundings}

/-! ## Giving out -/

theorem shifts_giveNothing (status : Bool) : Shifts t may 0 (giveNothing status) fun _ => 1 :=
  fun _ => (shifts_push _).bind (Nat.le_refl 0) fun _ => over_pure _ (by simp)

theorem shifts_giveTop : Shifts t may 1 giveTop fun _ => 1 :=
  fun _ => spec_top fun s => (shifts_giveOut s).bind (Nat.zero_le _) fun _ =>
    (shifts_settle 1).bind (by omega) fun _ => over_pure _ (by simp)

theorem shifts_giveFrom (kind : Kind) (handle : Option CellId) (find : Payload → Option Slot) :
    Shifts t may 0 (giveFrom kind handle find) fun _ => 1 := by
  intro o
  refine spec_world fun w => ?_
  split
  · refine Spec.bind (Q := fun seen => Over (if seen then 1 else 0) o)
      (Spec.reading (fun p => ?_) (over_pure _ (by simp)) _) fun seen => ?_
    · exact (shifts_shareFound _).bind (Nat.le_refl 0) fun _ => over_pure _ (by simp)
    · cases seen with
      | true => exact shifts_giveTop o
      | false => exact shifts_giveNothing false o
  · exact shifts_giveNothing false o

theorem shifts_storeInto (kind : Kind) (handle : Option CellId) (v : Option Record)
    {exchange : Payload → Slot → Option (Payload × Slot)} (hx : Payload.Swaps exchange) :
    Shifts t may 0 (storeInto kind handle v exchange) fun _ => 0 := by
  intro o
  refine spec_world fun w => ?_
  split
  · refine (shifts_borrow _).bind (Nat.le_refl 0) fun _ => spec_top fun s => ?_
    refine Spec.bind (Q := fun _ => Over 1 o) (Spec.writing (fun p => ?_) ?_ _) fun stored => ?_
    · split
      · exact (shifts_exchangePayload _ hx).bind (Nat.le_refl 1) fun _ => over_pure _ (by simp)
      · exact over_pure _ (by simp)
    · exact over_pure _ (by simp)
    · exact shifts_drop.bind (Nat.le_refl 1) fun _ => over_pure _ (by simp)
  · exact over_pure _ (Nat.le_refl 0)

/-! ## Scripts and globals -/

theorem shifts_runText (hc : on.call.Safe t) (running : Bool) (code : Option Text.Bytes) :
    Shifts t may 0 (runText on running code) fun _ => 0 := by
  intro o
  unfold runText
  split
  · split
    · refine (shifts_runScript hc _).bind (Nat.le_refl 0) fun outcome => ?_
      cases outcome with
      | ok u =>
        refine spec_top fun s => spec_world fun w => ?_
        refine (shifts_allocText _).bind (Nat.zero_le _) fun text => ?_
        exact shifts_drop.bind (by simp [whenOkay]) fun _ => over_pure _ (Nat.zero_le _)
      | error fault =>
        exact ((shifts_allocText _).last (Nat.zero_le _) (by simp)).map fun _ _ h => h
    · exact over_pure _ (Nat.le_refl 0)
  · exact over_pure _ (Nat.le_refl 0)

theorem shifts_createNative (f : Option NativeFunction) :
    Shifts t may 0 (createNative f) fun _ => 1 := by
  unfold createNative
  split
  · exact shifts_change (fun w => w.move_installEmpty t _ rfl) fun _ _ h =>
      World.over_install (n := 0) (k := 0) h _
  · exact shifts_push _

theorem shifts_registerNative (scope : ScopeId) (running : Bool) (name : Option Text.Bytes)
    (f : Option NativeFunction) :
    Shifts t may 0 (registerNative scope running name f) fun _ => 0 := by
  intro o
  unfold registerNative
  split
  · split
    · refine (shifts_createNative _).bind (Nat.le_refl 0) fun _ => ?_
      exact (shifts_declare scope _).bind (by omega) fun _ => over_pure _ (Nat.zero_le _)
    · exact over_pure _ (Nat.le_refl 0)
  · exact over_pure _ (Nat.le_refl 0)

theorem shifts_dropThen {α : Type} (r : α) :
    Shifts t may 1 (drop >>= fun _ => pure r) fun _ => 0 :=
  fun _ => shifts_drop.bind (Nat.le_refl 1) fun _ => over_pure _ (Nat.zero_le _)

theorem shifts_declareGlobal (scope : ScopeId) (running : Bool) (name : Option Text.Bytes)
    (v : Option Record) : Shifts t may 1 (declareGlobal scope running name v) fun _ => 0 := by
  intro o
  unfold declareGlobal
  split
  · refine (shifts_consume _).bind (Nat.le_refl 1) fun _ => ?_
    split
    · split
      · exact (shifts_declare scope _).bind (by omega) fun _ => over_pure _ (Nat.zero_le _)
      · exact shifts_dropThen _ o
    · exact shifts_dropThen _ o
  · exact shifts_dropThen _ o

/-! ## Classes, arrays and objects -/

theorem shifts_createClass (running : Bool) (name : Option Text.Bytes) :
    Shifts t may 0 (createClass running name) fun _ => 1 := by
  unfold createClass
  split
  · split
    · exact shifts_change (fun w => w.move_installEmpty t _ rfl) fun _ _ h =>
        World.over_install (n := 0) (k := 0) h _
    · exact shifts_push _
  · exact shifts_push _

theorem shifts_addMethod (handle : Option CellId) (name : Option Text.Bytes) :
    Shifts t may 1 (addMethod handle name) fun _ => 0 := by
  intro o
  refine spec_top fun f => spec_world fun w => ?_
  split
  · refine Spec.bind (Q := fun _ => Over 1 o) (Spec.writing (fun p => ?_) ?_ _) fun stored => ?_
    · exact (shifts_exchangePayload _ (Payload.swaps_putMethod _)).bind (Nat.le_refl 1) fun _ =>
        over_pure _ (by simp)
    · exact over_pure _ (by simp)
    · exact shifts_dropThen _ o
  · exact shifts_dropThen _ o

theorem shifts_arrayLength (handle : Option CellId) :
    Shifts t may 0 (arrayLength handle) fun _ => 0 := by
  intro o
  refine spec_world fun w => ?_
  split
  · refine Spec.reading (fun p => ?_) (over_pure _ (by simp)) _
    split <;> exact over_pure _ (by simp)
  · exact over_pure _ (by simp)

theorem shifts_arrayGet (handle : Option CellId) (index : Int) :
    Shifts t may 0 (arrayGet handle index) fun _ => 1 :=
  shifts_giveFrom _ _ _

theorem shifts_arraySet (handle : Option CellId) (index : Int) (v : Option Record) :
    Shifts t may 0 (arraySet handle index v) fun _ => 0 := by
  unfold arraySet
  split
  · exact fun _ => over_pure _ (Nat.le_refl 0)
  · exact shifts_storeInto _ _ _ (Payload.swaps_putElement _)

theorem shifts_arrayPush (handle : Option CellId) (v : Option Record) :
    Shifts t may 0 (arrayPush handle v) fun _ => 0 :=
  shifts_storeInto _ _ _ Payload.swaps_pushElement

theorem shifts_objectHas (handle : Option CellId) (key : Option Text.Bytes) :
    Shifts t may 0 (objectHas handle key) fun _ => 0 := by
  intro o
  refine spec_world fun w => ?_
  split
  · exact Spec.reading (fun p => over_pure _ (by simp)) (over_pure _ (by simp)) _
  · exact over_pure _ (by simp)

theorem shifts_objectGet (handle : Option CellId) (key : Option Text.Bytes) :
    Shifts t may 0 (objectGet handle key) fun _ => 1 := by
  unfold objectGet
  split
  · exact shifts_giveFrom _ _ _
  · exact shifts_giveNothing _

theorem shifts_objectSet (handle : Option CellId) (key : Option Text.Bytes) (v : Option Record) :
    Shifts t may 0 (objectSet handle key v) fun _ => 0 := by
  unfold objectSet
  split
  · exact shifts_storeInto _ _ _ (Payload.swaps_putProperty _)
  · exact fun _ => over_pure _ (Nat.le_refl 0)

theorem shifts_objectKeys (handle : Option CellId) :
    Shifts t may 0 (objectKeys handle) fun _ => 0 := by
  intro o
  refine spec_world fun w => ?_
  split
  · refine Spec.bind (Q := fun _ => Over 0 o) (Spec.reading (fun p => ?_) ?_ _) fun keys => ?_
    · exact spec_pure _ fun _ h => h
    · exact spec_pure _ fun _ h => h
    · exact shifts_allocText _ o
  · exact (shifts_pure _).bind (Nat.le_refl 0) fun keys => shifts_allocText _ o

/-! ## Calls and tasks -/

/-- The slots that borrowed records became are on the stack. -/
theorem spec_borrowAll (records : List Record) {l : List Slot} (ho : o <:+ l) :
    Spec t may o (· = l) (borrowAll records) fun slots l' =>
      Over records.length l l' ∧ Covers l' slots := by
  induction records generalizing l with
  | nil =>
    rw [borrowAll]
    exact spec_pure _ fun l' h => ⟨h ▸ over_refl l, fun id hid => by cases hid⟩
  | cons r rest ih =>
    rw [borrowAll]
    refine Spec.here ((shifts_borrow r).bindAbove (Nat.le_refl 0) ho fun _ => ?_)
    refine Spec.exactly fun l₁ hl₁ ho₁ => spec_topAt fun s hs => ?_
    refine (ih ho₁).bind fun more => spec_pure _ fun l' h => ⟨?_, ?_⟩
    · exact (hl₁.trans h.1).mono (by simp)
    · exact Covers.append (hs.mono h.1.1) h.2

theorem spec_giveBack {given : Given} {o : List Slot} :
    Spec t may o (Over 1 o) (settleTo o.length >>= fun _ => pure given) fun _ => Over 1 o :=
  (spec_settleTo o).bind fun _ => over_pure _ (Nat.le_refl 1)

/-- The arguments, the receiver and the function are on the stack during the call, and after it they
are not. -/
theorem shifts_callFunction {call : Caller} (hc : call.Safe t) (running : Bool)
    (handle : Option CellId) (argc : Int) (argv : Option (List Record))
    (receiver : Option Record) :
    Shifts t may 0 (callFunction call running handle argc argv receiver) fun _ => 1 := by
  refine Shifts.of_exact fun o => spec_world fun w => ?_
  split
  · split
    · exact (shifts_giveNothing false o).here
    · refine spec_height ((spec_borrowAll _ (List.suffix_refl o)).bind fun args => ?_)
      refine Spec.exactly fun l₁ hl₁ ho₁ => (spec_borrowAll _ ho₁).bind fun receivers => ?_
      refine Spec.exactly fun l₂ hl₂ ho₂ => Spec.here ?_
      refine (shifts_share _).bindAbove (Nat.le_refl 0) ho₂ fun _ => ?_
      refine Spec.exactly fun l₃ hl₃ ho₃ => spec_topAt fun callee hcallee => ?_
      have hlend : Covers l₃ ([callee] ++ receivers.head?.toList ++ args) := by
        refine (hcallee.append fun id hid => ?_).append
          (hl₁.2.mono (hl₂.1.1.trans hl₃.1))
        refine hl₃.1.subset (hl₂.2 id ?_)
        rw [Option.mem_toList] at hid
        exact List.mem_of_mem_head? hid
      have hover : ∀ k l, Over k l₃ l → Over k o l := fun k l h =>
        (hl₁.1.trans (hl₂.1.trans (hl₃.trans h))).mono (by omega)
      refine ((spec_callSlot hc hlend).here.recover.lower ho₃ ?_).bind fun outcome => ?_
      · rintro _ rfl
        exact List.suffix_refl _
      · cases outcome with
        | ok u =>
          refine Spec.weaken (P := Over 1 o) ?_ id (hover 1) fun _ _ h => h
          exact (shifts_giveTop o).bind fun given => spec_giveBack
        | error fault =>
          refine Spec.weaken (P := Over 0 o) ?_ id (fun l h => hover 0 l (h ▸ over_refl l₃))
            fun _ _ h => h
          exact (spec_unwind o).bind fun _ => (shifts_giveNothing false o).here
  · exact (shifts_giveNothing false o).here

theorem shifts_createTask (v : Option Record) : Shifts t may 0 (createTask v) fun _ => 1 := by
  unfold createTask
  split
  · refine fun o => (shifts_borrow _).bind (Nat.le_refl 0) fun _ => ?_
    exact over_change (World.move_allocTask t) fun w h =>
      World.over_install (n := 0) (k := 1) h _
  · exact shifts_push _

theorem shifts_taskResult (handle : Option CellId) :
    Shifts t may 0 (taskResult handle) fun _ => 1 :=
  shifts_giveFrom _ _ _

end Enclave.Act
