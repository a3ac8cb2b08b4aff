import Enclave.Act
import Enclave.Boundary.Transfer
import Enclave.Proofs.World.Over

/-! # What the moments of a run tell

From the moments that a machine noted one can read which calls were in progress at each of them. A
record of moments is in order when at each moment the world was counted, nothing stood on the
working stack between two steps of the host, and whatever was lent to a call in progress was alive
and of the kind that it had when the call began.
-/
namespace Enclave

/-- The cells that a call of a function cell goes by without owning them: the function itself, and
what the records of its arguments and its receiver name. -/
def Event.lent : Event → List CellId
  | .entered (some callee) _ _ argv receiver =>
    callee :: (argv.getD [] ++ receiver.toList).filterMap fun r => r.slot.cell?
  | _ => []

/-- Is no script and no callback in progress? -/
def Event.isQuiet : Event → Bool
  | .stepped | .closing => true
  | _ => false

/-- Does the event neither begin nor end a call? -/
def Event.isPlain : Event → Bool
  | .entered .. | .returned _ => false
  | _ => true

theorem Event.lent_of_isPlain {event : Event} (hp : event.isPlain = true) : event.lent = [] := by
  cases event <;> simp_all [lent, isPlain]

/-- The calls that have begun and not yet returned, newest first. -/
def openCalls : List Moment → List Moment
  | [] => []
  | mo :: older =>
    match mo.event with
    | .entered .. => mo :: openCalls older
    | .returned _ => (openCalls older).tail
    | _ => openCalls older

theorem openCalls_plain {event : Event} (hp : event.isPlain = true) (w : World)
    (older : List Moment) : openCalls (⟨event, w⟩ :: older) = openCalls older := by
  cases event <;> simp_all [openCalls, Event.isPlain]

/-- A moment in order, after older ones. -/
structure Moment.Fits (lossless : Prop) (mo : Moment) (older : List Moment) : Prop where
  counted : mo.world.heap.Counted mo.world.outside
  whole : lossless → mo.world.lost = []
  quiet : mo.event.isQuiet = true → mo.world.stack = []
  lent : ∀ call, call = mo ∨ call ∈ openCalls older → ∀ id ∈ call.event.lent,
    call.world.heap.isLive id = true ∧ mo.world.heap.kind? id = call.world.heap.kind? id

def Recorded (lossless : Prop) : List Moment → Prop
  | [] => True
  | mo :: older => mo.Fits lossless older ∧ Recorded lossless older

variable {lossless : Prop} {t : Limits} {keep : List Slot} {m : Machine}

/-- Every moment of a record in order is in order. -/
theorem Recorded.fits {newer older : List Moment} {mo : Moment}
    (h : Recorded lossless (newer ++ mo :: older)) : mo.Fits lossless older := by
  induction newer with
  | nil => exact h.1
  | cons first rest ih => exact ih h.2

theorem Recorded.fits_of_mem {moments : List Moment} (h : Recorded lossless moments) {mo : Moment}
    (hmo : mo ∈ moments) : ∃ older, mo.Fits lossless older := by
  obtain ⟨newer, older, rfl⟩ := List.append_of_mem hmo
  exact ⟨older, h.fits⟩

/-- A machine is in good order when its world is sound, its moments are in order, the stack has kept
its lower part, and what calls in progress were lent is owned by that part. -/
structure Machine.Good (t : Limits) (keep : List Slot) (m : Machine) : Prop where
  sound : m.world.Sound t
  keeps : keep <:+ m.world.stack
  recorded : Recorded t.lossless m.moments
  lends : ∀ call ∈ openCalls m.moments, ∀ id ∈ call.event.lent,
    Slot.cell id ∈ keep ∧ m.world.heap.kind? id = call.world.heap.kind? id

namespace Machine

/-- The first machine of a session. -/
theorem good_initial (config : Config) (second lossless : Prop) :
    (⟨.initial config, []⟩ : Machine).Good ⟨0, second, [], lossless⟩ [] :=
  ⟨World.sound_initial config second lossless, List.nil_suffix, trivial, fun _ h => by cases h⟩

theorem Good.isLive (h : m.Good t keep) {id : CellId} (hid : Slot.cell id ∈ keep) :
    m.world.heap.isLive id = true :=
  World.isLive_of_stack h.sound.counted (h.keeps.subset hid)

/-- What is alive with the kind that something else has. -/
theorem isLive_of_kind? {h h' : Heap} {id : CellId} (hl : h.isLive id = true)
    (hk : h.kind? id = h'.kind? id) : h'.isLive id = true := by
  simp only [Heap.isLive, Heap.kind?] at hl hk ⊢
  rw [← Option.isSome_map (f := Cell.kind), ← hk, Option.isSome_map]
  exact hl

/-- A move that keeps the lower part of the stack keeps good order, also under other limits. -/
theorem Good.world {t' : Limits} {keep' : List Slot} (h : m.Good t keep) {w : World}
    (hs : w.Sound t') (hl : m.world.heap.Later w.heap) (ht : t'.lossless ↔ t.lossless)
    (hk : keep' <:+ w.stack) (hkeep : keep ⊆ keep') : ({ m with world := w } : Machine).Good t' keep' := by
  refine ⟨hs, hk, by rw [ht]; exact h.recorded, fun call hc id hid => ?_⟩
  obtain ⟨hmem, hkind⟩ := h.lends call hc id hid
  refine ⟨hkeep hmem, ?_⟩
  rw [← hkind]
  exact hl.kind?_eq (h.isLive hmem) (World.isLive_of_stack hs.counted (hk.subset (hkeep hmem)))

theorem Good.move (h : m.Good t keep) {w : World} (hm : World.Move t m.world w)
    (hk : keep <:+ w.stack) : ({ m with world := w } : Machine).Good t keep :=
  h.world (hm.sound h.sound) hm.later Iff.rfl hk (List.Subset.refl keep)

/-- More of the stack can be kept. -/
theorem Good.raise {keep' : List Slot} (h : m.Good t keep) (hk : keep <:+ keep')
    (hs : keep' <:+ m.world.stack) : m.Good t keep' :=
  ⟨h.sound, hs, h.recorded, fun call hc id hid =>
    ⟨hk.subset (h.lends call hc id hid).1, (h.lends call hc id hid).2⟩⟩

/-- After an act that kept more, as much as before is kept. -/
theorem Good.lower {keep' : List Slot} {m' : Machine} (h : m.Good t keep) (h' : m'.Good t keep')
    (hk : keep <:+ keep') (ho : openCalls m'.moments = openCalls m.moments) : m'.Good t keep :=
  ⟨h'.sound, hk.trans h'.keeps, h'.recorded, fun call hc id hid =>
    ⟨(h.lends call (ho ▸ hc) id hid).1, (h'.lends call hc id hid).2⟩⟩

/-! ## Noting -/

/-- What a moment that is noted now fits with. -/
theorem Good.fits (h : m.Good t keep) {event : Event}
    (hl : ∀ id ∈ event.lent, m.world.heap.isLive id = true)
    (hq : event.isQuiet = true → m.world.stack = []) :
    Moment.Fits t.lossless ⟨event, m.world⟩ m.moments := by
  refine ⟨h.sound.counted, h.sound.whole, hq, fun call hc id hid => ?_⟩
  rcases hc with rfl | hc
  · exact ⟨hl id hid, rfl⟩
  · obtain ⟨hmem, hkind⟩ := h.lends call hc id hid
    exact ⟨isLive_of_kind? (h.isLive hmem) hkind, hkind⟩

def noting (m : Machine) (event : Event) : Machine :=
  { m with moments := ⟨event, m.world⟩ :: m.moments }

/-- To note that a call begins needs what it is lent to be kept. -/
theorem Good.enter (h : m.Good t keep) {callee : Option CellId} {f : NativeFunction} {argc : Int}
    {argv : Option (List Record)} {receiver : Option Record}
    (hl : ∀ id ∈ (Event.entered callee f argc argv receiver).lent, Slot.cell id ∈ keep) :
    (m.noting (.entered callee f argc argv receiver)).Good t keep := by
  refine ⟨h.sound, h.keeps, ⟨h.fits (fun id hid => h.isLive (hl id hid)) (by simp [Event.isQuiet]),
    h.recorded⟩, fun call hc id hid => ?_⟩
  rcases List.mem_cons.mp hc with rfl | hc
  · exact ⟨hl id hid, rfl⟩
  · exact h.lends call hc id hid

theorem Good.leave (h : m.Good t keep) (r : Record) : (m.noting (.returned r)).Good t keep :=
  ⟨h.sound, h.keeps, ⟨h.fits (by simp [Event.lent]) (by simp [Event.isQuiet]), h.recorded⟩,
    fun call hc id hid => h.lends call (List.mem_of_mem_tail hc) id hid⟩

theorem Good.plain (h : m.Good t keep) {event : Event} (hp : event.isPlain = true)
    (hq : event.isQuiet = true → m.world.stack = []) : (m.noting event).Good t keep := by
  refine ⟨h.sound, h.keeps, ⟨h.fits ?_ hq, h.recorded⟩, fun call hc id hid => ?_⟩
  · simp [Event.lent_of_isPlain hp]
  · rw [noting, openCalls_plain hp] at hc
    exact h.lends call hc id hid

end Machine
end Enclave
