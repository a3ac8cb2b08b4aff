import Enclave.Proofs.Act.Spec

/-! # Property access is accounted for

A write to a payload puts one slot in and takes one slot out, or puts one in beside nulls. Reading a
member leaves one entry, and writing one takes one away.
-/
namespace Enclave

theorem holders_replicate_null (n : Nat) (id : CellId) :
    holders (List.replicate n Slot.null) id = 0 := by
  induction n with
  | zero => rfl
  | succ n ih => simp [List.replicate_succ, ih]

theorem holders_setIfInBounds {elements : Array Slot} {i : Nat} {old : Slot}
    (ho : elements[i]? = some old) (s : Slot) (id : CellId) :
    old.owns id + holders (elements.setIfInBounds i s).toList id =
      s.owns id + holders elements.toList id := by
  obtain ⟨hi, hget⟩ := Array.getElem?_eq_some_iff.mp ho
  have := holders_set elements.toList (by simpa using hi) s id
  rw [Array.getElem_toList, hget] at this
  rw [Array.toList_setIfInBounds]
  omega

namespace Payload

theorem swaps_putElement (index : Nat) : Swaps (putElement index) := by
  intro p s q old hq
  cases p with
  | array elements =>
    simp only [putElement, storeElement] at hq
    cases he : elements[index]? with
    | some e =>
      simp only [he, Option.some.injEq, Prod.mk.injEq] at hq
      obtain ⟨rfl, rfl⟩ := hq
      exact ⟨rfl, holders_setIfInBounds he s⟩
    | none =>
      simp only [he] at hq
      split at hq
      · rename_i new gone hn
        split at hn
        · cases hn
          cases hq
          refine ⟨rfl, fun id => ?_⟩
          simp [slots, holders_replicate_null, Nat.add_comm]
        · cases hn
      · cases hq
  | object | function | classDesc | task => cases hq

theorem swaps_pushElement : Swaps pushElement := by
  intro p s q old hq
  cases p with
  | array elements =>
    cases hq
    exact ⟨rfl, fun id => by simp [slots, Nat.add_comm]⟩
  | object | function | classDesc | task => cases hq

theorem swaps_putProperty (key : String) : Swaps (putProperty key) := by
  intro p s q old hq
  cases p with
  | object properties classLink =>
    cases hq
    refine ⟨rfl, fun id => ?_⟩
    have := Table.holders_values_put properties key s id
    simp only [slots, holders_append]
    omega
  | array | function | classDesc | task => cases hq

theorem swaps_putMethod (key : String) : Swaps (putMethod key) := by
  intro p s q old hq
  cases p with
  | classDesc name methods =>
    cases hq
    exact ⟨rfl, Table.holders_values_put methods key s⟩
  | array | object | function | task => cases hq

end Payload

namespace Act

variable {α : Type} {t : Limits} {may : Prop} {keep o : List Slot} {n : Nat}
  {P : List Slot → Prop} {Q : α → List Slot → Prop}

theorem Spec.reading {x : Payload → Act α} {refused : Act α}
    (hx : ∀ p, Spec t may keep P (x p) Q) (hr : Spec t may keep P refused Q) (id : CellId) :
    Spec t may keep P (reading id x refused) Q := by
  refine Spec.accessing (spec_world fun w => ?_) hr _
  split
  · exact hx _
  · exact hr

theorem Spec.writing {x : Payload → Act α} {refused : Act α}
    (hx : ∀ p, Spec t may keep P (x p) Q) (hr : Spec t may keep P refused Q) (id : CellId) :
    Spec t may keep P (writing id x refused) Q := by
  refine Spec.accessing (spec_world fun w => ?_) hr _
  split
  · exact hx _
  · exact hr

theorem shifts_exchangePayload (id : CellId) {f : Payload → Slot → Option (Payload × Slot)}
    (hf : Payload.Swaps f) : Shifts t may 1 (change (·.exchangePayload id f)) fun _ => 1 :=
  shifts_change (fun w => w.move_exchangePayload t id hf) fun _ _ h =>
    World.over_exchangePayload (n := 0) h id f

theorem shifts_shareFound (found : Option Slot) : Shifts t may 0 (shareFound found) fun _ => 1 :=
  shifts_share _

theorem shifts_readProperty (properties : Table Slot) (classLink : Option CellId) (name : String) :
    Shifts t may 0 (readProperty properties classLink name) fun _ => 1 := by
  intro o
  unfold readProperty
  split
  · exact shifts_share _ o
  · split
    · exact shifts_push _ o
    · refine Spec.reading (fun p => ?_) (shifts_push _ o) _
      split
      · exact shifts_shareFound _ o
      · exact shifts_push _ o

theorem shifts_getMember (target key : Slot) :
    Shifts t True 0 (getMember target key) fun _ => 1 := by
  intro o
  refine spec_world fun w => ?_
  dsimp only
  split
  · exact spec_raise _
  · split <;> exact shifts_push _ o
  · exact shifts_push _ o
  · refine Spec.reading (fun p => ?_) (shifts_push _ o) _
    split
    · split
      · exact shifts_push _ o
      · exact shifts_shareFound _ o
    · exact shifts_readProperty _ _ _ o
    · split <;> exact shifts_push _ o
    · split
      · exact shifts_share _ o
      · exact shifts_push _ o
    · exact shifts_push _ o

theorem shifts_setMember (target key : Slot) :
    Shifts t True 1 (setMember target key) fun _ => 0 := by
  intro o
  refine spec_world fun w => ?_
  dsimp only
  split
  · exact spec_raise _
  · refine Spec.bind (Q := fun _ => Over 1 o) (Spec.writing (fun p => ?_) (spec_raise _) _)
      fun _ => shifts_drop o
    split
    · split
      · exact spec_raise _
      · split
        · exact shifts_exchangePayload _ (Payload.swaps_putElement _) o
        · exact spec_raise _
    · exact shifts_exchangePayload _ (Payload.swaps_putProperty _) o
    · exact spec_raise _

end Act
end Enclave
