import Enclave.Proofs.Boundary.Given
import Enclave.Proofs.Text.KeyList

/-! # What the host reads

Reading through a view changes nothing but what is in hand: the image of what was found, or null.
Keys go out as they are sent, so a key with a zero inside finds nothing.
-/
namespace Enclave

open Text

namespace Payload

variable {p : Payload} {s : Slot}

theorem mem_slots_of_element? {index : Int} (h : p.element? index = some s) : s ∈ p.slots := by
  cases p with
  | array elements =>
    simp only [element?] at h
    split at h
    · exact Array.mem_toList_iff.mpr (Array.mem_of_getElem? h)
    · cases h
  | _ => cases h

theorem mem_slots_of_property? {key : String} (h : p.property? key = some s) : s ∈ p.slots := by
  cases p with
  | object properties link => exact List.mem_append_left _ (Table.mem_values_of_get? h)
  | _ => cases h

theorem mem_slots_of_result? (h : p.result? = some s) : s ∈ p.slots := by
  cases p with
  | task result =>
    simp only [result?, Option.some.injEq] at h
    simp [slots, h]
  | _ => cases h

end Payload

namespace Act

variable {m₀ m : Machine} {ss : List Slot} {bs : List Nat} {es : List Event} {id : CellId}
  {elements : Array Slot} {properties : Table Slot} {link : Option CellId} {key : String}

section Proper

variable (hp : m₀.world.heap.Proper)
include hp

/-! ## Elements, properties and results -/

/-- An entry gave something out, and the host accepts it. -/
theorem turns_giveAccept {kind : Kind} {p : Payload} {find : Payload → Option Slot}
    (operation : Operation) (hv : m₀.world.visible? id = some p) (hk : p.kind = kind)
    (hfind : ∀ s, find p = some s → s ∈ p.slots) :
    Turns m₀ ⟨ss, bs, es⟩ (giveFrom kind (some id) find >>= accept operation) fun v k =>
      v = .ok (m₀.world.image ((find p).getD .null)) ∧
        k = ⟨((find p).getD .null).cut :: ss, bs, es⟩ := by
  have hs : m₀.world.Alive ((find p).getD .null) := World.alive_found_visible hp hv hfind
  have hc : m₀.world.cellOf? kind (some id) = some id := hk ▸ World.cellOf?_of_visible hp hv
  apply (turns_giveFrom hp hc hv hfind).bind
  intro given k hgiven
  obtain ⟨hstatus, e, b, hgives, rfl⟩ := hgiven
  exact turns_accept hp operation hs hstatus hgives

theorem turns_arrayElement (hv : m₀.world.visible? id = some (.array elements)) {index : Nat}
    (hi : index ≤ maxCount) :
    Turns m₀ ⟨ss, bs, es⟩ (arrayElement ⟨some id⟩ index) fun v k =>
      v = .ok (m₀.world.image (elements[index]?.getD .null)) ∧
        k = ⟨(elements[index]?.getD .null).cut :: ss, bs, es⟩ := by
  have hrun : arrayElement ⟨some id⟩ index =
      giveFrom .array (some id) (Payload.element? index) >>= accept .arrayGet := if_pos hi
  have hfind : Payload.element? index (.array elements) = elements[index]? := by
    simp [Payload.element?]
  rw [hrun, ← hfind]
  exact turns_giveAccept hp .arrayGet hv rfl fun _ => Payload.mem_slots_of_element?

/-- Every element can be read, up to the largest index. -/
theorem turns_arrayElements (hv : m₀.world.visible? id = some (.array elements)) (index count : Nat)
    (hi : index + count ≤ maxCount + 1) :
    Turns m₀ ⟨ss, bs, es⟩ (arrayElements ⟨some id⟩ index count) fun r _ =>
      r = .ok ((List.range' index count).map fun i =>
        m₀.world.image (elements[i]?.getD .null)) := by
  induction count generalizing index ss with
  | zero => exact turns_pure _ rfl
  | succ count ih =>
    rw [arrayElements]
    apply (turns_arrayElement hp hv (by omega)).then
    apply (ih (index + 1) (by omega)).bind
    rintro _ k rfl
    exact turns_pure _ rfl

theorem turns_keyedValue (hv : m₀.world.visible? id = some (.object properties link))
    (hkey : IsPlain key) :
    Turns m₀ ⟨ss, bs, es⟩ (keyedValue ⟨some id⟩ key) fun v k =>
      v = .ok (m₀.world.image ((properties.get? key).getD .null)) ∧
        k = ⟨((properties.get? key).getD .null).cut :: ss, bs, es⟩ := by
  have hrun : keyedValue ⟨some id⟩ key =
      giveFrom .object (some id) (Payload.property? key) >>= accept .objectGet := by
    simp only [keyedValue, sentText_plain hkey, whenOk, objectGet, readText_encode,
      cut_eq_self hkey]
  rw [hrun]
  exact turns_giveAccept hp .objectGet hv rfl fun _ => Payload.mem_slots_of_property?

/-- The host finds the image of a task's result, whatever kind it takes the task for. -/
theorem turns_settledResult {result : Slot} (hv : m₀.world.visible? id = some (.task result)) :
    Turns m₀ ⟨ss, bs, es⟩ (settledResult (.handle .task id)) fun v k =>
      v = m₀.world.image result ∧ k = ⟨result.cut :: ss, bs, es⟩ := by
  have hs : m₀.world.Alive result :=
    World.alive_of_mem_visible hp hv (by simp [Payload.slots])
  refine (turns_giveFrom hp (World.cellOf?_of_visible hp hv) hv fun s =>
    Payload.mem_slots_of_result?).bind fun given k hgiven => ?_
  obtain ⟨-, e, b, hgives, rfl⟩ := hgiven
  exact turns_takeOver hp hs hgives

/-! ## Keys -/

theorem turns_hasKey (hv : m₀.world.visible? id = some (.object properties link))
    (hkey : IsPlain key) :
    Turns m₀ ⟨ss, bs, es⟩ (hasKey ⟨some id⟩ key) fun found k =>
      found = properties.has key ∧ k = ⟨ss, bs, es⟩ := by
  have hrun : hasKey ⟨some id⟩ key = objectHas (some id) (some (encode key)) := by
    simp only [hasKey, sentText_plain hkey]
  rw [hrun]
  apply turns_world
  intro m hm
  have hc : m.world.cellOf? .object (some id) = some id := hm.cellOf?_of_visible hp hv
  rw [hc]
  refine turns_reading hv (turns_pure _ ⟨?_, rfl⟩)
  rw [readText_encode, cut_eq_self hkey]
  rfl

/-- All own keys arrive as they are. -/
theorem turns_ownKeys (hv : m₀.world.visible? id = some (.object properties link)) :
    Turns m₀ ⟨ss, bs, es⟩ (ownKeys ⟨some id⟩) fun keys k =>
      keys = properties.keys ∧ k = ⟨ss, bs, es⟩ := by
  have hkeys : Turns m₀ ⟨ss, bs, es⟩ (objectKeys (some id)) fun t k =>
      ∃ b, t = ⟨untilZero (encode (KeyList.write properties.keys)), some b⟩ ∧
        k = ⟨ss, b :: bs, es⟩ := by
    apply turns_world
    intro m hm
    have hc : m.world.cellOf? .object (some id) = some id := hm.cellOf?_of_visible hp hv
    rw [hc]
    have hread : Turns m₀ ⟨ss, bs, es⟩ (reading id (fun p => pure (Payload.keys p)) (pure []))
        fun keys k => keys = properties.keys ∧ k = ⟨ss, bs, es⟩ :=
      turns_reading hv (turns_pure _ ⟨rfl, rfl⟩)
    exact hread.then (turns_allocText _)
  apply hkeys.bind
  intro t k ht
  obtain ⟨b, rfl, rfl⟩ := ht
  refine (turns_freeText b).step (turns_pure _ ⟨?_, rfl⟩)
  exact KeyList.read_write_sent properties.keys

end Proper

/-! ## Keys that cannot be sent -/

theorem hasKey_of_not_plain (view : View .object) (hkey : ¬ IsPlain key) :
    hasKey view key = pure false := by
  simp only [hasKey, sentText_eq, if_neg hkey]
  cases view.handle? <;> rfl

theorem keyedValue_of_not_plain (id : CellId) (hkey : ¬ IsPlain key) :
    keyedValue ⟨some id⟩ key = pure (.error (.interiorZero key)) := by
  simp only [keyedValue, sentText_eq, if_neg hkey, whenOk]

end Act
end Enclave
