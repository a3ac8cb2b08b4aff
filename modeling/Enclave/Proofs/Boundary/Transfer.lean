import Enclave.Proofs.Act.Spec

/-! # Transfer is accounted for

What becomes of a reference when a slot crosses the boundary: a borrowed record leaves one new entry,
a consumed one takes the newest entry over, and a record that is given out is accompanied by one.
-/
namespace Enclave

theorem cell_of_lend {w : World} {s : Slot} {id : CellId}
    (h : (w.lend s).slot.cell? = some id) : s = .cell id := by
  cases s with
  | scalar v => cases v <;> simp [World.lend, Record.slot, Record.kind?, Record.ofNumber,
      Record.ofBool, Record.ofText, Record.null, Kind.ofCode?_code, Kind.isHandle, Slot.cell?,
      Slot.null] at h
  | cell i =>
    simp only [World.lend, Record.slot, Record.kind?, Record.ofHandle, Kind.ofCode?_code] at h
    split at h <;> try cases h
    split at h
    · cases h
      rfl
    · cases h

namespace Act

variable {t : Limits} {may : Prop}

theorem shifts_borrow (r : Record) : Shifts t may 0 (borrow r) fun _ => 1 :=
  shifts_share _

theorem shifts_consume (r : Record) : Shifts t may 1 (consume r) fun _ => 1 := by
  intro o
  unfold consume
  split
  · exact over_pure _ (Nat.le_refl 1)
  · exact shifts_drop.bind (Nat.le_refl 1) fun _ => (shifts_push _).last (Nat.zero_le _) (by simp)

theorem shifts_freeText (block : Option Nat) : Shifts t may 0 (freeText block) fun _ => 0 := by
  unfold freeText
  split
  · exact shifts_change (fun w => w.move_freeText t _) fun _ _ h => h
  · exact shifts_pure _

theorem shifts_adoptReturn (r : Record) : Shifts t may 1 (adoptReturn r) fun _ => 1 :=
  fun _ => (shifts_consume r).bind (Nat.le_refl 1) fun _ =>
    (shifts_freeText _).last (Nat.zero_le _) (by simp)

theorem shifts_allocText (s : String) : Shifts t may 0 (allocText s) fun _ => 0 :=
  fun _ => spec_world fun _ => (shifts_change (n := 0) (k := 0) (World.move_allocText t)
    fun _ _ h => h).bind (Nat.zero_le _) fun _ => over_pure _ (Nat.zero_le _)

theorem shifts_giveOut (s : Slot) : Shifts t may 0 (giveOut s) fun _ => 1 := by
  intro o
  refine spec_world fun w => ?_
  dsimp only
  split
  · refine (shifts_allocText _).bind (Nat.le_refl 0) fun r => ?_
    exact (shifts_push _).bind (Nat.zero_le _) fun _ => over_pure _ (by simp)
  · exact (shifts_push _).bind (Nat.zero_le _) fun _ => over_pure _ (by simp)
  · exact (shifts_share _).bind (Nat.zero_le _) fun _ => over_pure _ (by simp)

end Act
end Enclave
