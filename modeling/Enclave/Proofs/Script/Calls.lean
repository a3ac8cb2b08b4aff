import Enclave.Proofs.Boundary.Transfer
import Enclave.Proofs.Script.Member

/-! # Calls from scripts are accounted for

Globals, places, calls and constructions. A caller is safe when it leaves alone the stack that it
finds and adds the reference of its answer, provided that the stack owns what the call lends.
-/
namespace Enclave

open Act

/-- What is asked of a way to call native functions. -/
def Caller.Safe (t : Limits) (call : Caller) : Prop :=
  ∀ callee f argc argv receiver o,
    (∀ id ∈ (Event.entered callee f argc argv receiver).lent, Slot.cell id ∈ o) →
    Spec t False o (Over 0 o) (call callee f argc argv receiver) fun _ => Over 1 o

namespace Act

variable {t : Limits} {may : Prop} {o l : List Slot} {call : Caller}

/-! ## Globals and places -/

theorem shifts_copyGlobal (scope : ScopeId) (name : String) :
    Shifts t may 0 (copyGlobal scope name) fun found => if found then 1 else 0 := by
  intro o
  refine Spec.surely (spec_world fun w => ?_) _
  split
  · exact (shifts_share _).bind (Nat.le_refl 0) fun _ => over_pure _ (by simp)
  · exact over_pure _ (by simp)

theorem shifts_loadGlobal (scope : ScopeId) (name : String) :
    Shifts t True 0 (loadGlobal scope name) fun _ => 1 := by
  intro o
  refine (shifts_copyGlobal scope name).bind (Nat.le_refl 0) fun found => ?_
  cases found with
  | true => exact over_pure _ (by simp)
  | false => exact spec_raise _

theorem shifts_declare (scope : ScopeId) (name : String) :
    Shifts t may 1 (declare scope name) fun _ => 0 := by
  intro o
  have hx : Shifts t may 1 (change (·.exchangeGlobal scope name)) fun _ => 1 :=
    shifts_change (fun w => w.move_exchangeGlobal t scope name) fun _ _ h =>
      World.over_exchangeGlobal (n := 0) h scope name
  exact ((hx o).surely _).bind fun _ => shifts_drop o

theorem shifts_storeGlobal (scope : ScopeId) (name : String) :
    Shifts t True 1 (storeGlobal scope name) fun _ => 0 := by
  intro o
  refine (shifts_copyGlobal scope name).bind (Nat.zero_le 1) fun found => ?_
  cases found with
  | true =>
    exact shifts_drop.bind (by simp) fun _ => (shifts_declare scope name).last (by simp) (by simp)
  | false => exact spec_raise _

theorem shifts_load (scope : ScopeId) (place : Location) :
    Shifts t True 0 (load scope place) fun _ => 1 := by
  cases place with
  | «global» name => exact shifts_loadGlobal scope name
  | member target key => exact shifts_getMember target key

theorem shifts_store (scope : ScopeId) (place : Location) :
    Shifts t True 1 (store scope place) fun _ => 0 := by
  cases place with
  | «global» name => exact shifts_storeGlobal scope name
  | member target key => exact shifts_setMember target key

/-! ## Calls -/

theorem shifts_nativeOf (s : Slot) : Shifts t may 0 (nativeOf s) fun _ => 0 := by
  intro o
  unfold nativeOf
  split
  · exact over_pure _ (Nat.le_refl 0)
  · refine Spec.reading (fun p => ?_) ?_ _
    · split <;> exact over_pure _ (Nat.le_refl 0)
    · exact over_pure _ (Nat.le_refl 0)

/-- What a call lends is among the function, the receiver and the arguments. -/
theorem mem_of_mem_lent {w : World} {callee : Option CellId} {f : NativeFunction} {argc : Int}
    {receiver : Option Slot} {args : List Slot} {id : CellId}
    (hid : id ∈ (Event.entered callee f argc (some (args.map w.lend)) (receiver.map w.lend)).lent) :
    Slot.cell id ∈ (callee.map Slot.cell).toList ++ receiver.toList ++ args := by
  cases callee with
  | none => cases hid
  | some c =>
    rcases List.mem_cons.mp hid with rfl | hid
    · simp
    · obtain ⟨r, hr, hr'⟩ := List.mem_filterMap.mp hid
      rw [Option.getD_some, List.mem_append] at hr
      rcases hr with hr | hr
      · obtain ⟨s, hs, rfl⟩ := List.mem_map.mp hr
        rw [cell_of_lend hr'] at hs
        exact List.mem_append_right _ hs
      · cases receiver with
        | none => cases hr
        | some s =>
          obtain rfl : r = w.lend s := by simpa using hr
          rw [cell_of_lend hr']
          simp

theorem shifts_allocInstance (id : CellId) :
    Shifts t may 0 (change (·.allocInstance id)) fun _ => 1 :=
  shifts_change (fun w => w.move_allocInstance t id) fun _ _ h => World.over_allocInstance h id

theorem spec_invoke (hcall : call.Safe t) {callee : Option CellId} {receiver : Option Slot}
    {args : List Slot} (f : NativeFunction)
    (hl : Covers l ((callee.map Slot.cell).toList ++ receiver.toList ++ args)) :
    Spec t may l (Over 0 l) (invoke call callee f receiver args) fun _ => Over 1 l := by
  refine spec_world fun w => ?_
  refine Spec.bind ((hcall callee f _ _ _ l fun id hid => hl id (mem_of_mem_lent hid)).weaken
    False.elim (fun _ h => h) fun _ _ h => h) fun r => ?_
  exact (shifts_adoptReturn r).last (Nat.le_refl 1) (by simp)

/-- A callee that is no cell lends nothing. -/
theorem Covers.called {callee : Slot} {receiver : Option Slot} {args : List Slot}
    (hl : Covers l ([callee] ++ receiver.toList ++ args)) :
    Covers l ((callee.cell?.map Slot.cell).toList ++ receiver.toList ++ args) := by
  intro id hid
  apply hl id
  cases callee with
  | scalar v =>
    simp only [Slot.cell?, Option.map_none, Option.toList_none, List.nil_append] at hid
    rw [List.append_assoc]
    exact List.mem_append_right _ hid
  | cell i => simpa [Slot.cell?] using hid

theorem spec_callSlot (hcall : call.Safe t) {callee : Slot} {receiver : Option Slot}
    {args : List Slot} (hl : Covers l ([callee] ++ receiver.toList ++ args)) :
    Spec t True l (Over 0 l) (callSlot call callee receiver args) fun _ => Over 1 l := by
  refine (shifts_nativeOf callee).bind (Nat.le_refl 0) fun found => ?_
  cases found with
  | none => exact spec_world fun w => spec_raise _
  | some f => exact spec_invoke hcall f hl.called

/-- The constructor that was found, the new instance and the arguments are on the stack during the
call. -/
theorem spec_construct (hcall : call.Safe t) {args : List Slot} (classSlot : Slot)
    (hl : Covers l args) :
    Spec t True l (Over 0 l) (construct call classSlot args) fun _ => Over 1 l := by
  refine spec_world fun w => ?_
  dsimp only
  split
  · split
    · refine Spec.bind (Q := fun _ => Over 1 l) (Spec.reading (fun p => ?_) ?_ _) fun found => ?_
      · split
        · exact (shifts_shareFound _).bind (Nat.zero_le _) fun _ => over_pure _ (by simp)
        · exact (shifts_push _).bind (Nat.zero_le _) fun _ => over_pure _ (by simp)
      · exact (shifts_push _).bind (Nat.zero_le _) fun _ => over_pure _ (by simp)
      · refine Spec.exactly fun l₁ hl₁ ho₁ => spec_topAt fun constructor hc => Spec.here ?_
        refine (shifts_allocInstance _).bindAbove (Nat.le_refl 0) ho₁ fun _ => ?_
        refine Spec.exactly fun l₂ hl₂ ho₂ => spec_topAt fun made hm => Spec.here ?_
        have hlend : Covers l₂ ([constructor] ++ [made] ++ args) :=
          ((hc.mono hl₂.1).append hm).append (hl.mono ho₂)
        have hend : ∀ k, Spec t True l (Over k l₂) (settle 1) fun _ => Over 1 l := fun k =>
          ((shifts_settle 1).last (Nat.le_refl 2) (by simp)).weaken id
            (fun _ h => (hl₁.trans (hl₂.trans h)).mono (by omega)) fun _ _ h => h
        split
        · refine ((spec_callSlot hcall hlend).lower ho₂ fun _ h => h.1).bind fun _ => ?_
          exact shifts_drop.bindAbove (Nat.le_refl 1) ho₂ fun _ => hend _
        · exact hend 0
    · exact spec_raise _
  · exact spec_raise _

end Act
end Enclave
