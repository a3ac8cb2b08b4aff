import Enclave.Proofs.Script.Access

/-! # Lists that are written at any place

What a script's key addresses in an array is an element or the length, never both. A write at a place
behind the end puts nulls up to it.
-/
namespace Enclave

open Act

/-! ## Lists with nulls up to a place -/

/-- A list after a slot was put at an index. -/
def written (l : List Slot) (i : Nat) (s : Slot) : List Slot :=
  (l ++ List.replicate (i + 1 - l.length) Slot.null).set i s

section Written

variable {l : List Slot} {i j : Nat} {s : Slot}

end Written

theorem isWritable_iff {size i : Nat} : isWritable size i = true ↔ i ≤ size + maxElementGap := by
  rw [isWritable, decide_eq_true_iff]
  omega

/-- An array takes a slot as its list does. -/
theorem Payload.putElement_eq (elements : Array Slot) (i : Nat) (s : Slot) :
    putElement i (array elements) s =
      if i ≤ elements.size + maxElementGap then
        some (array (written elements.toList i s).toArray, (elements[i]?).getD .null)
      else none := by
  cases hold : elements[i]? with
  | some old =>
    obtain ⟨hi, -⟩ := Array.getElem?_eq_some_iff.mp hold
    have hlist : written elements.toList i s = (elements.setIfInBounds i s).toList := by
      have hnone : i + 1 - elements.toList.length = 0 := by
        rw [Array.length_toList]
        omega
      rw [written, hnone, List.replicate_zero, List.append_nil, Array.toList_setIfInBounds]
    have hgap : i ≤ elements.size + maxElementGap := by omega
    simp only [putElement, storeElement, hold, if_pos hgap, hlist]
  | none =>
    have hi : elements.size ≤ i := Array.getElem?_eq_none_iff.mp hold
    have hlist : written elements.toList i s =
        ((elements ++ Array.replicate (i - elements.size) Slot.null).push s).toList := by
      have hlength : (elements.toList ++ List.replicate (i - elements.size) Slot.null).length = i := by
        simp only [List.length_append, List.length_replicate, Array.length_toList]
        omega
      have hone : i + 1 - elements.toList.length = (i - elements.size) + 1 := by
        rw [Array.length_toList]
        omega
      rw [written, hone, List.replicate_succ', ← List.append_assoc, Array.toList_push,
        Array.toList_append, Array.toList_replicate]
      rw [List.set_append_right _ _ hlength.le, hlength, Nat.sub_self]
      rfl
    by_cases hgap : i ≤ elements.size + maxElementGap
    · have hwritable := isWritable_iff.mpr hgap
      simp only [putElement, storeElement, hold, hwritable, if_true, if_pos hgap, hlist]
    · have hwritable : ¬ isWritable elements.size i = true := fun h => hgap (isWritable_iff.mp h)
      simp only [putElement, storeElement, hold, if_neg hwritable, if_neg hgap]

/-! ## Keys of elements -/

/-- A script reads an element or the length. -/
def listMember (w : World) (l : List Slot) (key : Slot) : Slot :=
  if w.propertyName key = "length" then .scalar (.number (Number.ofWhole l.length))
  else ((elementIndex? key).bind fun i => l[i]?).getD .null

/-- A script writes an element. -/
def listAssign (w : World) (l : List Slot) (key s : Slot) : Except Fault (List Slot) :=
  match elementIndex? key with
  | none => .error (.invalidIndex (w.propertyName key))
  | some i =>
    if i ≤ l.length + maxElementGap then .ok (written l i s) else .error (.indexOutOfRange i)

namespace Number

end Number

end Enclave
