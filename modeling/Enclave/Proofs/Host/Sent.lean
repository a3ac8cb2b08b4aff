import Enclave.Proofs.Boundary.Stored
import Enclave.Proofs.Host.Native

/-! # What the host sends

A value that fits the world, a text without a zero inside or a handle under the kind of its cell, is
lent as a record of the slot that owns what the value owns, and it is the image of that slot. Wherever
such a value is written, that slot is put in its place.
-/
namespace Enclave

open Act Text

/-- Text can be sent, and the kind of a handle is that of its cell. -/
def World.Fits (w : World) : Value → Prop
  | .scalar (.string s) => IsPlain s
  | .scalar _ => True
  | .handle kind id => w.heap.kind? id = some kind

namespace World

variable {w : World} {s : Slot} {v : Value} {id : CellId}

/-- What was read from a slot fits. -/
theorem fits_image (h : w.Alive s) : w.Fits (w.image s) := by
  cases s with
  | scalar c =>
    cases c with
    | string text => exact isPlain_cut text
    | null | number | bool => trivial
  | cell id =>
    obtain ⟨cell, hcell⟩ := Heap.isLive_iff.mp (h id rfl)
    simp [Fits, image, kindOf, Heap.kind?, hcell]

theorem alive_of_fits (h : w.Fits v) : w.Alive v.slot := by
  cases v with
  | scalar c => exact alive_scalar c
  | handle kind id =>
    rintro _ ⟨⟩
    exact Heap.isLive_of_kind? h

theorem image_of_fits (h : w.Fits v) : w.image v.slot = v := by
  cases v with
  | scalar c =>
    cases c with
    | string text =>
      simp only [Value.slot, image, Value.string, cut_eq_self h]
    | null | number | bool => rfl
  | handle kind id =>
    have hk : w.heap.kind? id = some kind := h
    simp [Value.slot, image, kindOf, hk]

theorem cut_of_fits (h : w.Fits v) : v.slot.cut = v.slot := by
  rw [← slot_image w, image_of_fits h]

/-- A value goes on fitting as long as its cell keeps its kind. -/
theorem Fits.of_kind? {w' : World} (h : w.Fits v)
    (hk : ∀ kind id, v = .handle kind id → w'.heap.kind? id = w.heap.kind? id) : w'.Fits v := by
  cases v with
  | scalar c => cases c <;> exact h
  | handle kind id => exact (hk kind id rfl).trans h

end World

/-- An element that may be written is there afterwards. -/
theorem Payload.putElement_writable {elements : Array Slot} {index : Nat}
    (hgap : isWritable elements.size index = true) (s : Slot) :
    ∃ elements' old, putElement index (.array elements) s = some (.array elements', old) ∧
      elements'[index]? = some s := by
  cases hold : elements[index]? with
  | some old =>
    obtain ⟨hi, -⟩ := Array.getElem?_eq_some_iff.mp hold
    refine ⟨elements.setIfInBounds index s, old, ?_, ?_⟩
    · simp [putElement, storeElement, hold]
    · simp [hi]
  | none =>
    have hi : elements.size ≤ index := Array.getElem?_eq_none_iff.mp hold
    let padded := elements ++ Array.replicate (index - elements.size) Slot.null
    have hsize : padded.size = index := by
      simp only [padded, Array.size_append, Array.size_replicate]
      omega
    refine ⟨padded.push s, .null, ?_, ?_⟩
    · simp [putElement, storeElement, hold, hgap, padded]
    · rw [← hsize]
      exact Array.getElem?_push_size

/-- A handle is tagged with a kind of cells, if perhaps not with that of its own. -/
def Value.IsTagged (v : Value) : Prop :=
  ∀ kind id, v = .handle kind id → kind.isHandle = true

/-- A value is lent as a record of its slot, if at all. -/
theorem Value.slot_of_lend {v : Value} {r : Record} (hv : v.IsTagged) (h : v.lend = .ok r) :
    r.slot = v.slot := by
  cases v with
  | scalar c =>
    cases c with
    | null | number =>
      cases h
      rfl
    | bool b =>
      cases h
      cases b <;> rfl
    | string text =>
      rw [lend, sentText_eq] at h
      by_cases hplain : IsPlain text
      · rw [if_pos hplain] at h
        cases h
        change Slot.scalar (.string (decodeLossy (untilZero (encode text)))) = _
        rw [untilZero_encode, cut_eq_self hplain, decodeLossy_encode]
        rfl
      · rw [if_neg hplain] at h
        cases h
  | handle kind id =>
    cases h
    exact Record.slot_ofHandle (hv kind id rfl) id

theorem Value.tagged_of_fits {w : World} {v : Value} (hp : w.heap.Proper) (h : w.Fits v) :
    v.IsTagged := by
  rintro kind id rfl
  obtain ⟨p, -, rfl⟩ := Option.map_eq_some_iff.mp ((hp.kind? id).symm.trans h)
  exact p.isHandle_kind

/-- A value that fits is lent as a record of its slot. -/
theorem Value.lend_of_fits {w : World} {v : Value} (hp : w.heap.Proper) (h : w.Fits v) :
    ∃ r, v.lend = .ok r ∧ r.slot = v.slot := by
  have hlent : ∃ r, v.lend = .ok r := by
    cases v with
    | scalar c =>
      cases c with
      | null | number | bool => exact ⟨_, rfl⟩
      | string text =>
        rw [lend, sentText_plain h]
        exact ⟨_, rfl⟩
    | handle kind id => exact ⟨_, rfl⟩
  obtain ⟨r, hr⟩ := hlent
  exact ⟨r, hr, slot_of_lend (tagged_of_fits hp h) hr⟩

namespace Act

variable {t : Limits} {m m' : Machine} {v : Value} {id : CellId} {elements : Array Slot}
  {table : Table Slot} {link : Option CellId} {on : Surroundings}

section Proper

variable (hp : m.world.heap.Proper) (hv : m.world.Fits v)
include hp hv

/-! ## Containers -/

/-- A cell of the kind takes the value. -/
theorem storeInto_fits {kind : Kind} {p q : Payload} {old : Slot} {r : Record}
    {exchange : Payload → Slot → Option (Payload × Slot)} (hr : r.slot = v.slot)
    (hw : m.world.writable? id = some p) (hk : p.kind = kind)
    (hf : exchange p v.slot = some (q, old)) :
    storeInto kind (some id) (some r) exchange m =
      .done true { m with world := m.world.stored v.slot id q old } := by
  have hc : m.world.cellOf? kind (some id) = some id :=
    hk ▸ World.cellOf?_of_visible hp (World.visible?_of_writable hw)
  have hfound : m.world.found r.slot = v.slot := by
    rw [hr, World.found_of_alive (World.alive_of_fits hv)]
  rw [storeInto_stored hc hw (hfound ▸ hf), hr]

theorem writeElement_fits {index : Nat} (hw : m.world.writable? id = some (.array elements))
    (hi : index ≤ maxCount) (hgap : isWritable elements.size index = true) :
    ∃ elements' old,
      Payload.putElement index (.array elements) v.slot = some (.array elements', old) ∧
      elements'[index]? = some v.slot ∧
      writeElement ⟨some id⟩ index v m = .done (.ok ())
        { m with world := m.world.stored v.slot id (.array elements') old } := by
  obtain ⟨r, hlend, hr⟩ := Value.lend_of_fits hp hv
  obtain ⟨elements', old, hput, hget⟩ := Payload.putElement_writable hgap v.slot
  refine ⟨elements', old, hput, hget, ?_⟩
  change (if index ≤ maxCount then whenOk v.lend _ else _ : Act (Except HostError Unit)) m = _
  rw [if_pos hi, hlend]
  change ((if (index : Int) < 0 then pure false else storeInto .array (some id) (some r)
    (Payload.putElement (index : Int).toNat)) >>= confirm .arraySet) m = _
  rw [if_neg (by omega), Int.toNat_natCast]
  exact (bind_done (storeInto_fits hp hv hr hw rfl hput)).trans rfl

theorem appendElement_fits (hw : m.world.writable? id = some (.array elements)) :
    appendElement ⟨some id⟩ v m = .done (.ok ())
      { m with world := m.world.stored v.slot id (.array (elements.push v.slot)) .null } := by
  obtain ⟨r, hlend, hr⟩ := Value.lend_of_fits hp hv
  change whenOk v.lend _ m = _
  rw [hlend]
  exact (bind_done (storeInto_fits hp hv hr hw rfl rfl)).trans rfl

theorem writeKeyed_fits {key : String} (hw : m.world.writable? id = some (.object table link))
    (hkey : IsPlain key) :
    writeKeyed ⟨some id⟩ key v m = .done (.ok ())
      { m with world := (m.world.stored v.slot id (.object (table.put key v.slot) link)
          ((table.get? key).getD .null)) } := by
  obtain ⟨r, hlend, hr⟩ := Value.lend_of_fits hp hv
  change whenOk (sentText key) _ m = _
  rw [sentText_plain hkey]
  change whenOk v.lend _ m = _
  rw [hlend]
  change (storeInto .object (some id) (some r) (Payload.putProperty (readText (encode key))) >>=
    confirm .objectSet) m = _
  rw [readText_encode, cut_eq_self hkey]
  exact (bind_done (storeInto_fits hp hv hr hw rfl rfl)).trans rfl

/-! ## Tasks and globals -/

theorem settledTask_fits :
    settledTask v m = .done (.ok (.handle .task m.world.heap.next))
      { m with world := (m.world.share v.slot).allocTask } := by
  obtain ⟨r, hlend, hr⟩ := Value.lend_of_fits hp hv
  have hmade : createTask (some r) m =
      .done () { m with world := (m.world.share v.slot).allocTask } := by
    rw [← hr]
    rfl
  have hnext : (m.world.share v.slot).allocTask.top = .cell m.world.heap.next := by
    rw [World.share_eq]
    exact congrArg Slot.cell (Heap.next_retainSlot _ _)
  change whenOk v.lend _ m = _
  rw [hlend]
  change (createTask (some r) >>= fun _ => _) m = _
  rw [bind_done hmade, bind_done (top_eq _), hnext]
  rfl

omit hp hv in
/-- A scalar makes room for null on its way, and the record brings it back. -/
theorem clearScalar_consumed {r : Record} {rest : List Slot} (hs : m.world.stack = v.slot :: rest)
    (hr : r.slot = v.slot) :
    ∃ w, clearScalar v m = .done () { m with world := w } ∧ w.consumed r = m.world := by
  cases v with
  | scalar c =>
    refine ⟨m.world.drop.push .null, rfl, ?_⟩
    have hdrop : m.world.drop = { m.world with stack := rest } := by
      simp only [World.drop, hs, Value.slot, Heap.releaseSlots_scalar]
    rw [World.consumed, hr, hdrop]
    change (({ m.world with stack := rest } : World).push .null).drop.push c = m.world
    rw [World.drop_push]
    change ({ m.world with stack := (Value.scalar c).slot :: rest } : World) = m.world
    rw [← hs]
  | handle kind id =>
    refine ⟨m.world, rfl, ?_⟩
    rw [World.consumed, hr]
    rfl

omit hp hv in
/-- The newest entry, which is what the value owns, goes into a scope under a name. -/
theorem declareTop_sent {r : Record} {name : String} {rest : List Slot}
    (hs : m.world.stack = v.slot :: rest) (hlend : v.lend = .ok r) (hr : r.slot = v.slot)
    (hname : IsPlain name) :
    declareTop on name v m = (declare on.scope name >>= fun _ => pure (.ok ())) m := by
  obtain ⟨w, hclear, hback⟩ := clearScalar_consumed hs hr
  have hover : handOver v m = .done (.ok r) { m with world := w } := by
    unfold handOver
    rw [hlend]
    exact (bind_done hclear).trans rfl
  unfold declareTop
  rw [sentText_plain hname]
  refine (bind_done hover).trans ?_
  change ((consume r >>= fun _ => (declare on.scope (readText (encode name)) >>= fun _ =>
    pure true)) >>= confirm .declare) { m with world := w } = _
  rw [readText_encode, cut_eq_self hname]
  have hrun : (consume r >>= fun _ => (declare on.scope name >>= fun _ => pure true))
      { m with world := w } = (declare on.scope name >>= fun _ => pure true) m := by
    rw [bind_done (consume_eq r _)]
    simp only [hback]
  rw [bind_congr hrun, bind_bind]
  rfl

/-- The newest entry, which is what the value owns, becomes the value of a global. -/
theorem declareTop_fits {name : String} {rest : List Slot} {globals : Table Slot}
    (hs : m.world.stack = v.slot :: rest) (hname : IsPlain name)
    (ht : m.world.scope? on.scope = some globals)
    (hopen : m.world.canWrite (.scope on.scope) = true) :
    declareTop on name v m = .done (.ok ()) { m with world :=
      { m.world.setScope on.scope (some (globals.put name v.slot)) with
        heap := m.world.heap.releaseSlots [(globals.get? name).getD .null], stack := rest } } := by
  obtain ⟨r, hlend, hr⟩ := Value.lend_of_fits hp hv
  have hdeclare := declare_eq on.scope name m
  rw [if_pos hopen, World.drop_exchangeGlobal name hs ht] at hdeclare
  rw [declareTop_sent hs hlend hr hname, bind_done hdeclare]
  rfl

end Proper

end Act
end Enclave
