import Enclave.Proofs.Act.Trace
import Enclave.Proofs.Heap.Raised
import Enclave.Proofs.World.Hand

/-! # What acts gain

Most of what a host asks for leaves the world as it was but for what is in hand afterwards: entries
of the working stack, text blocks, and events that were noted. A machine gains them over an earlier
one when nothing else has changed but counters. From what has been gained an act turns to what it
gains itself.
-/
namespace Enclave

/-- Entries in hand, text blocks and events, each newest first. -/
structure Gain where
  slots : List Slot
  blocks : List Nat
  events : List Event

def Gain.none : Gain := ⟨[], [], []⟩

/-- The machine `m` is the machine `m₀` with a gain. Counters apart, all else is the same. -/
structure Machine.Gains (m₀ : Machine) (g : Gain) (m : Machine) : Prop where
  heap : m₀.world.heap.Raised g.slots m.world.heap
  stack : m.world.stack = g.slots ++ m₀.world.stack
  blocks : m.world.ledger.outstanding = g.blocks ++ m₀.world.ledger.outstanding
  rest : { m.world with
    heap := m₀.world.heap, ledger := m₀.world.ledger, stack := m₀.world.stack } = m₀.world
  moments : ∃ new, m.moments = new ++ m₀.moments ∧ new.map (·.event) = g.events

namespace World

variable {w : World} {s : Slot}

theorem alive_of_mem (hc : w.heap.Proper) {id : CellId} {p : Payload}
    (hp : w.heap.payload? id = some p) (hs : s ∈ p.slots) : w.Alive s :=
  fun x hx => hc.closed id p hp x (hx ▸ hs)

end World

namespace Machine

variable {m₀ m : Machine} {g : Gain} {ss dropped : List Slot} {bs : List Nat} {es : List Event}

theorem Gains.refl (m : Machine) : m.Gains .none m :=
  ⟨.refl _, rfl, rfl, rfl, [], rfl, rfl⟩

/-! ## What is the same -/

theorem Gains.guards (h : m₀.Gains g m) : m.world.guards = m₀.world.guards := by
  have := congrArg World.guards h.rest
  exact this

theorem Gains.exclusion (h : m₀.Gains g m) : m.world.exclusion = m₀.world.exclusion := by
  have := congrArg World.exclusion h.rest
  exact this

theorem Gains.engine (h : m₀.Gains g m) : m.world.engine = m₀.world.engine := by
  have := congrArg World.engine h.rest
  exact this

theorem Gains.scopes (h : m₀.Gains g m) : m.world.scopes = m₀.world.scopes := by
  have := congrArg World.scopes h.rest
  exact this

theorem Gains.lost (h : m₀.Gains g m) : m.world.lost = m₀.world.lost := by
  have := congrArg World.lost h.rest
  exact this

/-- What is owned outside the heap goes on being owned there. -/
theorem Gains.external (h : m₀.Gains g m) : m₀.world.external ⊆ m.world.external := by
  intro s hs
  rw [← h.rest] at hs
  simp only [World.external, World.globals, World.captured, World.registered, List.mem_append]
    at hs ⊢
  rw [h.stack, List.mem_append]
  exact hs.imp_right .inr

theorem Gains.canRead (h : m₀.Gains g m) (place : Place) :
    m.world.canRead place = m₀.world.canRead place := by
  rw [World.canRead, h.guards, h.exclusion, World.canRead]

theorem Gains.canWrite (h : m₀.Gains g m) (place : Place) :
    m.world.canWrite place = m₀.world.canWrite place := by
  rw [World.canWrite, h.guards, h.exclusion, World.canWrite]

theorem Gains.visible? (h : m₀.Gains g m) (id : CellId) :
    m.world.visible? id = m₀.world.visible? id := by
  rw [World.visible?, h.canRead, h.heap.payload?, World.visible?]

theorem Gains.kindOf (h : m₀.Gains g m) (s : Slot) : m.world.kindOf s = m₀.world.kindOf s := by
  cases s with
  | scalar v => rfl
  | cell id => simp only [World.kindOf, h.heap.kind?]

theorem Gains.lend (h : m₀.Gains g m) (s : Slot) : m.world.lend s = m₀.world.lend s := by
  cases s with
  | scalar v => cases v <;> rfl
  | cell id => simp only [World.lend, h.kindOf]

theorem Gains.later (h : m₀.Gains g m) : m₀.world.heap.Later m.world.heap :=
  ⟨Nat.le_of_eq h.heap.next.symm, fun id _ _ hk => (h.heap.kind? id).symm.trans hk⟩

/-- From one machine to a later one the count of every cell changes as the number of its owners
does. -/
def Follows (m m' : Machine) : Prop :=
  ∀ id, m'.world.heap.refs id + holders m.world.owners id =
    m.world.heap.refs id + holders m'.world.owners id

theorem Follows.trans {m₁ m₂ m₃ : Machine} (h₁₂ : m₁.Follows m₂) (h₂₃ : m₂.Follows m₃) :
    m₁.Follows m₃ := by
  intro id
  have hfirst := h₁₂ id
  have hsecond := h₂₃ id
  omega

theorem follows_of_sound {t t' : Limits} {m' : Machine} (hs : m.world.Sound t)
    (hs' : m'.world.Sound t') (hlost : m'.world.lost = m.world.lost) : m.Follows m' := by
  intro id
  have hcounts := (World.accounted_of_counted hs.counted).counts id
  have hcounts' := (World.accounted_of_counted hs'.counted).counts id
  rw [hlost] at hcounts'
  omega

theorem Good.follows {t t' : Limits} {keep keep' : List Slot} {m' : Machine} (hg : m.Good t keep)
    (hg' : m'.Good t' keep') (hlost : m'.world.lost = m.world.lost) : m.Follows m' :=
  follows_of_sound hg.sound hg'.sound hlost

/-- Every entry in hand is one owner more, and one reference more. -/
theorem Gains.follows (h : m₀.Gains g m) (ha : ∀ s ∈ g.slots, m₀.world.Alive s) :
    m₀.Follows m := by
  intro id
  have hexternal : holders m.world.external id = holders g.slots id + holders m₀.world.external id := by
    rw [← h.rest]
    simp only [World.external, World.globals, World.captured, World.registered, holders_append]
    rw [h.stack, holders_append]
    omega
  have hrefs : m.world.heap.refs id = m₀.world.heap.refs id + holders g.slots id := by
    by_cases hl : m₀.world.heap.isLive id = true
    · exact h.heap.refs hl
    · have hnone : holders g.slots id = 0 := by
        by_contra hne
        have hmem : Slot.cell id ∈ g.slots := holders_pos.mp (by omega)
        exact hl (ha _ hmem id rfl)
      have hdead : m₀.world.heap.cell? id = none := by simpa [Heap.isLive] using hl
      simp [Heap.refs, h.heap.cells, hdead, hnone]
  simp only [World.owners, holders_append]
  rw [hexternal, hrefs, h.heap.payloadSlots]
  omega

/-- With nothing in hand the machine has noted nothing. -/
theorem Gains.moments_eq (h : m₀.Gains ⟨ss, bs, []⟩ m) : m.moments = m₀.moments := by
  obtain ⟨new, hnew, hevents⟩ := h.moments
  rw [List.map_eq_nil_iff.mp hevents] at hnew
  exact hnew

/-! ## Changes of what is in hand -/

/-- Entries may be arranged anew as long as they hold the same references. -/
theorem Gains.restack (h : m₀.Gains ⟨ss, bs, es⟩ m) {ss' : List Slot}
    (hs : ∀ id, holders ss' id = holders ss id) :
    m₀.Gains ⟨ss', bs, es⟩
      { m with world := { m.world with stack := ss' ++ m₀.world.stack } } :=
  ⟨h.heap.congr hs, rfl, h.blocks, h.rest, h.moments⟩

theorem Gains.push (h : m₀.Gains ⟨ss, bs, es⟩ m) (v : Scalar) :
    m₀.Gains ⟨.scalar v :: ss, bs, es⟩ { m with world := m.world.push v } :=
  ⟨h.heap.congr fun id => by simp, congrArg _ h.stack, h.blocks, h.rest, h.moments⟩

theorem Gains.share (h : m₀.Gains ⟨ss, bs, es⟩ m) (s : Slot) :
    m₀.Gains ⟨m₀.world.found s :: ss, bs, es⟩ { m with world := m.world.share s } := by
  cases s with
  | scalar v => exact h.push v
  | cell id =>
    have hl := h.heap.isLive id
    by_cases hlive : m₀.world.heap.isLive id = true
    · rw [hlive] at hl
      have he : m.world.share (.cell id) =
          { m.world with heap := m.world.heap.retain id, stack := .cell id :: m.world.stack } := by
        rw [World.share, if_pos hl]
      rw [World.found, if_pos hlive, he]
      exact ⟨h.heap.retain id, congrArg _ h.stack, h.blocks, h.rest, h.moments⟩
    · have hl' : ¬ m.world.heap.isLive id = true := by rwa [hl]
      have he : m.world.share (.cell id) = m.world.push .null := by rw [World.share, if_neg hl']
      rw [World.found, if_neg hlive, he]
      exact h.push .null

/-- References that are given up leave the cells as they were without them. -/
theorem Gains.release (hp : m₀.world.heap.Proper) (h : m₀.Gains g m)
    (hg : ∀ id, holders g.slots id = holders dropped id + holders ss id) :
    m₀.Gains ⟨ss, g.blocks, g.events⟩ { m with world := { m.world with
      stack := ss ++ m₀.world.stack, heap := m.world.heap.releaseSlots dropped } } := by
  have hr : m₀.world.heap.Raised (dropped ++ ss) m.world.heap :=
    h.heap.congr fun id => by rw [holders_append, hg]
  exact ⟨hr.releaseSlots hp, rfl, h.blocks, h.rest, h.moments⟩

theorem Gains.dropMany (hp : m₀.world.heap.Proper) (h : m₀.Gains ⟨dropped ++ ss, bs, es⟩ m) :
    m₀.Gains ⟨ss, bs, es⟩ { m with world := m.world.dropMany dropped.length } := by
  have hstack : m.world.stack = dropped ++ (ss ++ m₀.world.stack) := by
    rw [h.stack, List.append_assoc]
  have he : m.world.dropMany dropped.length = { m.world with
      stack := ss ++ m₀.world.stack, heap := m.world.heap.releaseSlots dropped } := by
    simp [World.dropMany, hstack]
  rw [he]
  exact h.release hp fun id => by rw [holders_append]

theorem Gains.drop {s : Slot} (hp : m₀.world.heap.Proper) (h : m₀.Gains ⟨s :: ss, bs, es⟩ m) :
    m₀.Gains ⟨ss, bs, es⟩ { m with world := m.world.drop } := by
  have he : m.world.drop = m.world.dropMany [s].length := by
    simp [World.drop, World.dropMany, h.stack]
  have hs : m₀.Gains ⟨[s] ++ ss, bs, es⟩ m := h
  rw [he]
  exact hs.dropMany hp

/-- The newest entry stays and those beneath it go. -/
theorem Gains.settle {s : Slot} (hp : m₀.world.heap.Proper)
    (h : m₀.Gains ⟨s :: (dropped ++ ss), bs, es⟩ m) :
    m₀.Gains ⟨s :: ss, bs, es⟩ { m with world := m.world.settle dropped.length } := by
  have hstack : m.world.stack = s :: (dropped ++ (ss ++ m₀.world.stack)) := by
    rw [h.stack, List.cons_append, List.append_assoc]
  have he : m.world.settle dropped.length = { m.world with
      stack := (s :: ss) ++ m₀.world.stack, heap := m.world.heap.releaseSlots dropped } := by
    simp [World.settle, hstack]
  rw [he]
  apply h.release hp
  intro id
  simp only [holders_cons, holders_append]
  omega

/-- All that was gained in hand is dropped when a machine unwinds. -/
theorem Gains.unwind (hp : m₀.world.heap.Proper) (h : m₀.Gains ⟨dropped, bs, es⟩ m) :
    m₀.Gains ⟨[], bs, es⟩ { m with world := m.world.unwind m₀.world.stack.length } := by
  have hl : m.world.stack.length - m₀.world.stack.length = dropped.length := by
    rw [h.stack, List.length_append, Nat.add_sub_cancel]
  have hall : m₀.Gains ⟨dropped ++ [], bs, es⟩ m := by
    rw [List.append_nil]
    exact h
  rw [World.unwind, hl]
  exact hall.dropMany hp

/-! ## Text blocks, events and guards -/

theorem Gains.allocText (h : m₀.Gains ⟨ss, bs, es⟩ m) :
    m₀.Gains ⟨ss, m.world.ledger.next :: bs, es⟩ { m with world := m.world.allocText } :=
  ⟨h.heap, h.stack, congrArg _ h.blocks, h.rest, h.moments⟩

theorem Gains.freeText {b : Nat} (h : m₀.Gains ⟨ss, b :: bs, es⟩ m) :
    m₀.Gains ⟨ss, bs, es⟩ { m with world := m.world.freeText b } := by
  refine ⟨h.heap, h.stack, ?_, h.rest, h.moments⟩
  have hb := h.blocks
  simp only [List.cons_append] at hb
  simp [World.freeText, Ledger.free, hb]

theorem Gains.note (h : m₀.Gains ⟨ss, bs, es⟩ m) (event : Event) :
    m₀.Gains ⟨ss, bs, event :: es⟩ (m.noting event) := by
  obtain ⟨new, hnew, hevents⟩ := h.moments
  refine ⟨h.heap, h.stack, h.blocks, h.rest, ⟨event, m.world⟩ :: new, ?_, ?_⟩
  · simp [noting, hnew]
  · simp [hevents]

/-- The machine while an access is in progress. -/
def guard (m : Machine) (a : Guard) : Machine :=
  { m with world := m.world.guard a }

theorem Gains.guard (h : m₀.Gains g m) (a : Guard) : (m₀.guard a).Gains g (m.guard a) :=
  ⟨h.heap, h.stack, h.blocks, congrArg (World.guard · a) h.rest, h.moments⟩

theorem Gains.unguard {a : Guard} (h : (m₀.guard a).Gains g m) :
    m₀.Gains g { m with world := m.world.unguard a } := by
  refine ⟨h.heap, h.stack, h.blocks, ?_, h.moments⟩
  have hrest := congrArg (World.unguard · a) h.rest
  have hback : (m₀.world.guard a).unguard a = m₀.world := by
    simp [World.guard, World.unguard]
  exact hrest.trans hback

end Machine
end Enclave
