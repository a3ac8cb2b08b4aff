import Enclave.Host.Perform
import Enclave.Proofs.Act.Turns

/-! # What crosses the boundary arrives

A slot that is lent or given out becomes a record, and the host's reading of that record is the image
of the slot: the same scalar or the same cell under its kind, and of a text what stands before its
first zero. What the host gets that way is in its hand with a reference of its own.
-/
namespace Enclave

open Text

namespace Slot

/-- A slot after it has crossed the boundary. -/
def cut : Slot → Slot
  | .scalar (.string s) => .scalar (.string (Text.cut s))
  | s => s

@[simp]
theorem cut_cut (s : Slot) : s.cut.cut = s.cut := by
  cases s with
  | scalar v =>
    cases v with
    | string text => exact congrArg (fun t => Slot.scalar (.string t)) (Text.cut_cut text)
    | null | number | bool => rfl
  | cell id => rfl

end Slot

namespace World

/-- The host value of a slot. -/
def image (w : World) : Slot → Value
  | .scalar (.string s) => .string (Text.cut s)
  | .scalar v => .scalar v
  | .cell id => .handle (w.kindOf (.cell id)) id

variable {w : World} {s : Slot} {id : CellId}

@[simp]
theorem slot_image (w : World) (s : Slot) : (w.image s).slot = s.cut := by
  cases s with
  | scalar v => cases v <;> rfl
  | cell id => rfl

theorem alive_cut (h : w.Alive s) : w.Alive s.cut := by
  cases s with
  | scalar v => cases v <;> exact alive_scalar _
  | cell id => exact h

/-- The kind of a live cell is one of a handle. -/
theorem isHandle_kindOf (hp : w.heap.Proper) (h : w.heap.isLive id = true) :
    (w.kindOf (.cell id)).isHandle = true := by
  obtain ⟨p, hpayload⟩ := Heap.exists_payload? h
  have hkind : w.kindOf (.cell id) = p.kind := by simp [kindOf, hp.kind? id, hpayload]
  rw [hkind]
  exact p.isHandle_kind

theorem payload?_of_visible {p : Payload} (hv : w.visible? id = some p) :
    w.heap.payload? id = some p := by
  unfold visible? at hv
  split at hv
  · exact hv
  · cases hv

/-- A cell with a payload passes for a handle of the payload's kind. -/
theorem cellOf?_of_visible (hp : w.heap.Proper) {p : Payload} (hv : w.visible? id = some p) :
    w.cellOf? p.kind (some id) = some id := by
  simp [cellOf?, hp.kind? id, payload?_of_visible hv]

theorem kindOf_of_visible (hp : w.heap.Proper) {p : Payload} (hv : w.visible? id = some p) :
    w.kindOf (.cell id) = p.kind := by
  simp [kindOf, hp.kind? id, payload?_of_visible hv]

theorem alive_of_visible {p : Payload} (hv : w.visible? id = some p) : w.Alive (.cell id) := by
  rintro _ ⟨⟩
  exact Heap.isLive_of_payload? (payload?_of_visible hv)

/-- A cell that can be seen has only living slots. -/
theorem alive_of_mem_visible (hp : w.heap.Proper) {p : Payload} (hv : w.visible? id = some p)
    (hs : s ∈ p.slots) : w.Alive s :=
  alive_of_mem hp (payload?_of_visible hv) hs

/-- What is found in a cell that can be seen is alive, and so is the null that stands for nothing. -/
theorem alive_found_visible (hp : w.heap.Proper) {p : Payload} (hv : w.visible? id = some p)
    {found : Option Slot} (hfound : ∀ s, found = some s → s ∈ p.slots) :
    w.Alive (found.getD .null) := by
  cases found with
  | none => exact alive_scalar _
  | some s => exact alive_of_mem_visible hp hv (hfound s rfl)

end World

theorem Machine.Gains.cellOf? {m₀ m : Machine} {g : Gain} (h : m₀.Gains g m) (kind : Kind)
    (handle : Option CellId) : m.world.cellOf? kind handle = m₀.world.cellOf? kind handle := by
  simp only [World.cellOf?, h.heap.kind?]

theorem Machine.Gains.cellOf?_of_visible {m₀ m : Machine} {g : Gain} (h : m₀.Gains g m)
    (hp : m₀.world.heap.Proper) {id : CellId} {p : Payload} (hv : m₀.world.visible? id = some p) :
    m.world.cellOf? p.kind (some id) = some id :=
  (h.cellOf? _ _).trans (World.cellOf?_of_visible hp hv)

/-! ## Records of slots -/

theorem Value.ofRecord_ofHandle {kind : Kind} (hk : kind.isHandle = true) (id : CellId) :
    Value.ofRecord (.ofHandle kind id) = .ok (.handle kind id) := by
  cases kind <;> first | rfl | cases hk

theorem Record.slot_ofHandle {kind : Kind} (hk : kind.isHandle = true) (id : CellId) :
    (Record.ofHandle kind id).slot = .cell id := by
  cases kind <;> first | rfl | cases hk

/-- A record that gives a slot out, the entry that accompanies it, and the block that it hands
over. -/
inductive World.Gives (w : World) : Slot → Record → Slot → List Nat → Prop where
  | null : w.Gives .null .null .null []
  | number (n : Float) : w.Gives (.scalar (.number n)) (.ofNumber n) .null []
  | bool (b : Bool) : w.Gives (.scalar (.bool b)) (.ofBool b) .null []
  | text (s : String) (b : Nat) :
      w.Gives (.scalar (.string s)) (.ofText ⟨untilZero (encode s), some b⟩) .null [b]
  | cell (id : CellId) : w.Gives (.cell id) (w.lend (.cell id)) (.cell id) []

namespace Value

variable {w : World} {s e : Slot} {r : Record} {b : List Nat}

theorem ofRecord_ofText {t : TextRef} {text : String}
    (h : decode? (untilZero t.bytes) = some text) : ofRecord (.ofText t) = .ok (string text) := by
  have hkind : (Record.ofText t).kind? = some .string := rfl
  have htext : (Record.ofText t).text = some t := rfl
  simp only [ofRecord, hkind, htext, h]

/-- Text that was cut for the boundary arrives as it was cut. -/
theorem decode?_sent (text : String) :
    decode? (untilZero (untilZero (encode text))) = some (cut text) := by
  rw [untilZero_encode, untilZero_encode, cut_cut, decode?_encode]

/-- The host reads a lent record as the image of the slot. -/
theorem ofRecord_lend (hp : w.heap.Proper) (hs : w.Alive s) :
    ofRecord (w.lend s) = .ok (w.image s) := by
  cases s with
  | scalar v =>
    cases v with
    | null => rfl
    | number n => rfl
    | bool b => cases b <;> rfl
    | string text => exact ofRecord_ofText (decode?_sent text)
  | cell id => exact ofRecord_ofHandle (World.isHandle_kindOf hp (hs id rfl)) id

/-- The host reads a record that was given out as the image of the slot. -/
theorem ofRecord_of_gives (hp : w.heap.Proper) (hs : w.Alive s) (h : w.Gives s r e b) :
    ofRecord r = .ok (w.image s) := by
  cases h with
  | text text b => exact ofRecord_ofText (decode?_sent text)
  | null => rfl
  | number n => rfl
  | bool b => cases b <;> rfl
  | cell id => exact ofRecord_lend hp hs

end Value

namespace Act

variable {m₀ m : Machine} {ss : List Slot} {bs b : List Nat} {es : List Event} {s e : Slot}
  {r : Record}

/-! ## Giving out and taking over -/

theorem turns_giveOut (hs : m₀.world.Alive s) :
    Turns m₀ ⟨ss, bs, es⟩ (giveOut s) fun r k =>
      ∃ e b, m₀.world.Gives s r e b ∧ k = ⟨e :: ss, b ++ bs, es⟩ := by
  apply turns_world
  intro m hm
  cases s with
  | scalar v =>
    cases v with
    | null => exact (turns_push _).step (turns_pure _ ⟨_, _, .null, rfl⟩)
    | number n => exact (turns_push _).step (turns_pure _ ⟨_, _, .number n, rfl⟩)
    | bool b => exact (turns_push _).step (turns_pure _ ⟨_, _, .bool b, rfl⟩)
    | string text =>
      apply (turns_allocText text).bind
      intro t k ht
      obtain ⟨b, rfl, rfl⟩ := ht
      exact (turns_push _).step (turns_pure _ ⟨_, _, .text text b, rfl⟩)
  | cell id =>
    refine (turns_share hs).step (turns_pure _ ⟨.cell id, [], ?_, rfl⟩)
    rw [hm.lend]
    exact .cell id

section Proper

variable (hp : m₀.world.heap.Proper)
include hp

/-- The newest entry is given out. -/
theorem turns_giveTop (hs : m₀.world.Alive s) :
    Turns m₀ ⟨s :: ss, bs, es⟩ giveTop fun given k => given.status = true ∧
      ∃ e b, m₀.world.Gives s given.record e b ∧ k = ⟨e :: ss, b ++ bs, es⟩ := by
  refine turns_top ((turns_giveOut hs).bind fun r k hr => ?_)
  obtain ⟨e, b, hgives, rfl⟩ := hr
  have hsettle : Turns m₀ ⟨e :: ([s] ++ ss), b ++ bs, es⟩ (settle 1) fun _ k =>
      k = ⟨e :: ss, b ++ bs, es⟩ := turns_settle hp 1 rfl
  exact hsettle.step (turns_pure _ ⟨rfl, e, b, hgives, rfl⟩)

/-- The entry that goes with a scalar becomes the scalar. -/
theorem turns_keepScalar (v : Value) (hv : ∀ kind id, v = .handle kind id → e = .cell id) :
    Turns m₀ ⟨e :: ss, bs, es⟩ (keepScalar v) fun _ k => k = ⟨v.slot :: ss, bs, es⟩ := by
  cases v with
  | scalar c => exact (turns_drop hp).step (turns_push c)
  | handle kind id =>
    rw [hv kind id rfl]
    exact turns_pure _ rfl

/-- What was given out arrives as the image of the slot. -/
theorem turns_takeOver (hs : m₀.world.Alive s) (h : m₀.world.Gives s r e b) :
    Turns m₀ ⟨e :: ss, b ++ bs, es⟩ (takeOver r) fun v k =>
      v = m₀.world.image s ∧ k = ⟨s.cut :: ss, bs, es⟩ := by
  have hread := Value.ofRecord_of_gives hp hs h
  have hkeep : ∀ kind id, m₀.world.image s = .handle kind id → e = .cell id := by
    intro kind id himage
    cases h <;> cases himage
    rfl
  unfold takeOver
  rw [hread]
  have hslot : Turns m₀ ⟨e :: ss, b ++ bs, es⟩ (keepScalar (m₀.world.image s)) fun _ k =>
      k = ⟨s.cut :: ss, b ++ bs, es⟩ := by
    rw [← World.slot_image m₀.world s]
    exact turns_keepScalar hp _ hkeep
  refine hslot.step ?_
  cases h with
  | text text b => exact (turns_freeText b).step (turns_pure _ ⟨rfl, rfl⟩)
  | null => exact turns_pure _ ⟨rfl, rfl⟩
  | number n => exact turns_pure _ ⟨rfl, rfl⟩
  | bool b => exact turns_pure _ ⟨rfl, rfl⟩
  | cell id =>
    have hblock : (m₀.world.lend (.cell id)).textBlock? = none := by
      unfold Record.textBlock?
      split <;> rfl
    simp only [List.nil_append, hblock]
    exact turns_pure _ ⟨rfl, rfl⟩

/-- An answer that the host accepts. -/
theorem turns_accept {given : Given} (operation : Operation) (hs : m₀.world.Alive s)
    (hstatus : given.status = true) (h : m₀.world.Gives s given.record e b) :
    Turns m₀ ⟨e :: ss, b ++ bs, es⟩ (accept operation given) fun v k =>
      v = .ok (m₀.world.image s) ∧ k = ⟨s.cut :: ss, bs, es⟩ := by
  refine (turns_takeOver hp hs h).then ?_
  rw [if_pos hstatus]
  exact turns_pure _ ⟨rfl, rfl⟩

/-- A refusal leaves nothing. -/
theorem turns_acceptRefusal (operation : Operation) :
    Turns m₀ ⟨.null :: ss, bs, es⟩ (accept operation ⟨false, .null⟩) fun v k =>
      v = .error (.rejected operation) ∧ k = ⟨ss, bs, es⟩ :=
  (turns_takeOver hp (World.alive_scalar _) .null).then
    ((turns_drop hp).step (turns_pure _ ⟨rfl, rfl⟩))

/-! ## Looking into cells -/

variable {kind : Kind} {handle : Option CellId} {id : CellId} {p : Payload}
  {find : Payload → Option Slot}

/-- What is found in a cell is given out, or null if there is nothing. -/
theorem turns_giveFrom (hc : m₀.world.cellOf? kind handle = some id)
    (hv : m₀.world.visible? id = some p) (hfind : ∀ s, find p = some s → s ∈ p.slots) :
    Turns m₀ ⟨ss, bs, es⟩ (giveFrom kind handle find) fun given k => given.status = true ∧
      ∃ e b, m₀.world.Gives ((find p).getD .null) given.record e b ∧
        k = ⟨e :: ss, b ++ bs, es⟩ := by
  have hs : m₀.world.Alive ((find p).getD .null) := World.alive_found_visible hp hv hfind
  apply turns_world
  intro m hm
  rw [hm.cellOf?, hc]
  have hread : Turns m₀ ⟨ss, bs, es⟩
      (reading id (fun p => shareFound (find p) >>= fun _ => pure true) (pure false)) fun a k =>
        a = true ∧ k = ⟨(find p).getD .null :: ss, bs, es⟩ := by
    have hs' : (m₀.guard ⟨.payload id, false⟩).world.Alive ((find p).getD .null) := hs
    exact turns_reading hv ((turns_share hs').step (turns_pure _ ⟨rfl, rfl⟩))
  exact hread.then (turns_giveTop hp hs)

omit hp in
theorem turns_giveNothing (status : Bool) :
    Turns m₀ ⟨ss, bs, es⟩ (giveNothing status) fun given k =>
      given = ⟨status, .null⟩ ∧ k = ⟨.null :: ss, bs, es⟩ :=
  (turns_push _).step (turns_pure _ ⟨rfl, rfl⟩)

omit hp in
/-- Nothing is found where no cell of the kind can be seen. -/
theorem turns_giveFromRefused
    (hnone : (m₀.world.cellOf? kind handle).bind m₀.world.visible? = none) :
    Turns m₀ ⟨ss, bs, es⟩ (giveFrom kind handle find) fun given k =>
      given = ⟨false, .null⟩ ∧ k = ⟨.null :: ss, bs, es⟩ := by
  apply turns_world
  intro m hm
  rw [hm.cellOf?]
  cases hc : m₀.world.cellOf? kind handle with
  | none => exact turns_giveNothing false
  | some id =>
    rw [hc] at hnone
    have hread : Turns m₀ ⟨ss, bs, es⟩
        (reading id (fun p => shareFound (find p) >>= fun _ => pure true) (pure false)) fun a k =>
          a = false ∧ k = ⟨ss, bs, es⟩ :=
      turns_refused hnone fun _ => turns_pure _ ⟨rfl, rfl⟩
    exact hread.then (turns_giveNothing false)

end Proper

/-! ## Borrowing -/

/-- Records that are borrowed become the slots that they name, or null. -/
theorem turns_borrowFound (records : List Record) :
    Turns m₀ ⟨ss, bs, es⟩ (borrowAll records) fun slots k =>
      slots = records.map (fun r => m₀.world.found r.slot) ∧ k = ⟨slots.reverse ++ ss, bs, es⟩ := by
  induction records generalizing ss with
  | nil => exact turns_pure _ ⟨rfl, rfl⟩
  | cons r rest ih =>
    apply (turns_shareFound r.slot).step
    apply turns_top
    apply ih.bind
    rintro more k ⟨rfl, rfl⟩
    exact turns_pure _ ⟨rfl, by simp⟩

end Act
end Enclave
