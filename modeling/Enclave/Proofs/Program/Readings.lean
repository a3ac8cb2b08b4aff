import Mathlib.Logic.Function.Iterate
import Enclave.Program
import Enclave.Proofs.Script.Allowed

/-! # What counters show

A counter shows the number that it started from with one added for every time it was counted up. Both
can be read off the calls that a machine has noted, so a machine in order is one in which every counter
shows what the notes say. Scripts never have the functions in hand that start counters and count them up.
-/
namespace Enclave

open Act

namespace Program

/-! ## The cells that the program makes first -/

def className : String := "Counter"

def methodName : String := "inc"

def classCell : CellId := 1

def makerCell : CellId := 2

def counterCell : CellId := 3

def makerPlace : Nat := 1

def counterPlace : Nat := 2

def methods : Table Slot := [(constructorName, .cell makerCell), (methodName, .cell counterCell)]

/-- A function that adds, the constructor of counters, and what counts them up. -/
def engine : Engine :=
  ⟨.default, 0, #[⟨none, [], Stock.addTwo.body⟩, ⟨none, [], (Stock.storingNumber countKey).body⟩,
    ⟨none, [], (Stock.counting countKey).body⟩], true⟩

/-- What a counter that shows a number holds. -/
def counter (n : Float) : Payload :=
  .object [(countKey, .scalar (.number n))] (some classCell)

/-- The number that a counter starts from, by what its constructor is passed first. -/
def startOf : Option Slot → Float
  | some (.scalar (.number n)) => n
  | some (.scalar (.bool b)) => if b then 1.0 else 0.0
  | _ => 0.0

end Program

open Program

/-! ## Readings -/

/-- What a call passes first, if it is one of the closure at a place with the cell for receiver. -/
def Event.passes (place : Nat) (id : CellId) : Event → Option (Option Slot)
  | .entered _ (.closure (some i)) _ argv (some this) =>
    if i = place ∧ this.slot.cell? = some id then some ((argv.bind List.head?).map Record.slot) else none
  | _ => none

@[simp]
theorem Event.passes_called (place : Nat) (id : CellId) (label : Option String) (args : List Value)
    (receiver : Value) : (Event.called label args receiver).passes place id = none :=
  rfl

@[simp]
theorem Event.passes_resumed (place : Nat) (id : CellId) : Event.resumed.passes place id = none :=
  rfl

@[simp]
theorem Event.passes_returned (place : Nat) (id : CellId) (r : Record) :
    (Event.returned r).passes place id = none :=
  rfl

namespace Machine

variable {m m' : Machine} {g : Gain} {id x : CellId} {p q : Payload} {place : Nat}

/-- What the calls of the closure at a place with the cell for receiver passed first, newest first. -/
def calls (m : Machine) (place : Nat) (id : CellId) : List (Option Slot) :=
  m.moments.filterMap fun mo => mo.event.passes place id

/-- How often the cell was counted up. -/
def counted (m : Machine) (id : CellId) : Nat :=
  (m.calls counterPlace id).length

/-- The number that the cell started from. -/
def start (m : Machine) (id : CellId) : Float :=
  startOf (m.calls makerPlace id).head?.join

/-- The number that the cell started from, with one added as often as it was counted up. -/
def reading (m : Machine) (id : CellId) : Float :=
  (· + 1.0)^[m.counted id] (m.start id)

theorem Gains.calls (h : m.Gains g m') (place : Nat) (id : CellId) :
    m'.calls place id = g.events.filterMap (Event.passes place id) ++ m.calls place id := by
  obtain ⟨new, hnew, hevents⟩ := h.moments
  rw [Machine.calls, hnew, List.filterMap_append, ← hevents, List.filterMap_map]
  rfl

/-- The two machines have noted the same calls of the closures that have to do with counters. -/
def SameCalls (m m' : Machine) (id : CellId) : Prop :=
  m'.calls makerPlace id = m.calls makerPlace id ∧ m'.calls counterPlace id = m.calls counterPlace id

theorem SameCalls.counted (h : m.SameCalls m' id) : m'.counted id = m.counted id :=
  congrArg List.length h.2

theorem SameCalls.start (h : m.SameCalls m' id) : m'.start id = m.start id :=
  congrArg (fun l : List (Option Slot) => startOf l.head?.join) h.1

theorem SameCalls.reading (h : m.SameCalls m' id) : m'.reading id = m.reading id := by
  rw [Machine.reading, h.counted, h.start, Machine.reading]

end Machine

/-! ## What is in cells -/

/-- What may come into the hands of scripts: all but the functions of the class. -/
def Slot.Public (s : Slot) : Prop :=
  s ≠ .cell makerCell ∧ s ≠ .cell counterCell

theorem Slot.public_scalar (v : Scalar) : (Slot.scalar v).Public :=
  ⟨nofun, nofun⟩

theorem Slot.public_cell {id : CellId} (hid : id < makerCell ∨ counterCell < id) :
    (Slot.cell id).Public := by
  constructor
  · rintro ⟨⟩
    exact absurd hid (by decide)
  · rintro ⟨⟩
    exact absurd hid (by decide)

theorem Slot.Public.found {s : Slot} (h : s.Public) (w : World) : (w.found s).Public := by
  cases s with
  | scalar v => exact h
  | cell id =>
    rw [World.found]
    split
    · exact h
    · exact public_scalar _

namespace Payload

/-- No counter, and nothing that belongs to the class of counters. -/
def Plain : Payload → Prop
  | .object _ link => link = none
  | .function f => f = .closure (some 0)
  | .classDesc _ _ => False
  | .array _ | .task _ => True

def IsCounter : Payload → Prop
  | .object _ link => link = some classCell
  | _ => False

variable {p q : Payload} {w : World} {key s old : Slot} {index : Nat}

/-- Under a key of a plain payload lies one of its slots, or a scalar. -/
theorem Plain.member (hp : p.Plain) (hslots : ∀ s ∈ p.slots, s.Public) (w : World) (key : Slot) :
    (p.member w key).Public := by
  cases p with
  | array elements =>
    simp only [Payload.member]
    split
    · exact Slot.public_scalar _
    · cases helement : (elementIndex? key).bind fun i => elements[i]? with
      | none => exact Slot.public_scalar _
      | some s =>
        obtain ⟨i, -, hi⟩ := Option.bind_eq_some_iff.mp helement
        exact hslots s (Array.mem_toList_iff.mpr (Array.mem_of_getElem? hi))
  | object properties link =>
    cases (show link = none from hp)
    simp only [Payload.member]
    split
    · rename_i s hs
      exact hslots s (List.mem_append_left _ (Table.mem_values_of_get? hs))
    · exact Slot.public_scalar _
  | function f => exact Slot.public_scalar _
  | classDesc name methods => exact hp.elim
  | task result =>
    simp only [Payload.member]
    split
    · exact hslots _ List.mem_cons_self
    · exact Slot.public_scalar _

/-- An element that is written takes its place among the others and nulls. -/
theorem mem_putElement {elements : Array Slot} {r : Slot}
    (h : putElement index (.array elements) s = some (q, old)) :
    q.Plain ∧ (r ∈ q.slots → r ∈ (Payload.array elements).slots ∨ r = s ∨ r = .null) := by
  cases hold : elements[index]? with
  | some first =>
    simp only [putElement, storeElement, hold, Option.some.injEq, Prod.mk.injEq] at h
    obtain ⟨rfl, -⟩ := h
    refine ⟨trivial, fun hr => ?_⟩
    simp only [slots, Array.toList_setIfInBounds] at hr ⊢
    exact (List.mem_or_eq_of_mem_set hr).imp_right .inl
  | none =>
    simp only [putElement, storeElement, hold] at h
    split at h
    · rename_i new first hnew
      split at hnew
      · cases hnew
        cases h
        refine ⟨trivial, fun hr => ?_⟩
        simp only [slots, Array.toList_push, Array.toList_append, Array.toList_replicate,
          List.mem_append, List.mem_replicate, List.mem_singleton] at hr ⊢
        rcases hr with (hr | ⟨-, hr⟩) | hr
        · exact .inl hr
        · exact .inr (.inr hr)
        · exact .inr (.inl hr)
      · cases hnew
    · cases h

/-- A write to a plain payload leaves a plain one. -/
theorem Plain.assign (hp : p.Plain) (hslots : ∀ r ∈ p.slots, r.Public) (hs : s.Public)
    (h : p.assign w key s = .ok (q, old)) : q.Plain ∧ ∀ r ∈ q.slots, r.Public := by
  cases p with
  | array elements =>
    simp only [Payload.assign] at h
    cases hindex : elementIndex? key with
    | none =>
      rw [hindex] at h
      cases h
    | some index =>
      simp only [hindex] at h
      cases hput : putElement index (.array elements) s with
      | none =>
        rw [hput] at h
        cases h
      | some exchanged =>
        rw [hput] at h
        cases h
        refine ⟨(mem_putElement (r := s) hput).1, fun r hr => ?_⟩
        rcases (mem_putElement hput).2 hr with hr | rfl | rfl
        · exact hslots r hr
        · exact hs
        · exact Slot.public_scalar _
  | object properties link =>
    cases (show link = none from hp)
    cases h
    refine ⟨rfl, fun r hr => ?_⟩
    simp only [slots, Option.toList_none, List.map_nil, List.append_nil] at hr hslots
    rcases Table.mem_values_put hr with rfl | hr
    · exact hs
    · exact hslots r hr
  | function | classDesc | task => cases h

end Payload

/-- The cell is a counter. -/
def World.IsCounter (w : World) (id : CellId) : Prop :=
  ∃ p, w.heap.payload? id = some p ∧ p.IsCounter

/-! ## Machines in order -/

namespace Machine

/-- What a cell may hold when every counter shows what the notes say. -/
inductive Expects (m : Machine) : CellId → Payload → Prop
  | counters : Expects m classCell (.classDesc className methods)
  | maker : Expects m makerCell (.function (.closure (some makerPlace)))
  | counter : Expects m counterCell (.function (.closure (some counterPlace)))
  | reading {id : CellId} (hid : counterCell < id) : Expects m id (Program.counter (m.reading id))
  | plain {id : CellId} {p : Payload} (hid : id = 0 ∨ counterCell < id) (hp : p.Plain)
      (hslots : ∀ s ∈ p.slots, s.Public) : Expects m id p

/-- No access is in progress, and the engine is that of the program. -/
structure Idle (m : Machine) : Prop where
  free : m.world.guards = []
  engine : m.world.engine = Program.engine

/-- The program's own cells are as they were made, and every other cell is plain or a counter that shows
what the notes say. -/
structure Counts (m : Machine) : Prop extends m.Idle where
  bound : m.world.global? 0 className = some (.cell classCell)
  globals : ∀ x s, m.world.global? 0 x = some s → s.Public
  room : counterCell < m.world.heap.next
  cells : ∀ id p, m.world.heap.payload? id = some p → m.Expects id p
  noted : ∀ place id, place = makerPlace ∨ place = counterPlace → m.calls place id ≠ [] →
    id < m.world.heap.next

variable {m₁ m m' : Machine} {id : CellId} {p q : Payload} {s : Slot}

/-- What is expected of a cell stays so as long as its reading does. -/
theorem Expects.later (h : m.Expects id p) (hr : m'.reading id = m.reading id) : m'.Expects id p := by
  cases h with
  | counters => exact .counters
  | maker => exact .maker
  | counter => exact .counter
  | reading hid => exact hr ▸ .reading hid
  | plain hid hp hslots => exact .plain hid hp hslots

theorem Expects.of_isCounter (h : m.Expects id p) (hp : p.IsCounter) :
    counterCell < id ∧ p = Program.counter (m.reading id) := by
  cases h with
  | counters | maker | counter => exact hp.elim
  | reading hid => exact ⟨hid, rfl⟩
  | plain hid hplain hslots =>
    cases p with
    | object properties link => cases hplain.symm.trans hp
    | array | function | classDesc | task => exact hp.elim

/-- The accesses in progress, the engine and the scopes of the two machines are the same. -/
structure Beside (m m' : Machine) : Prop where
  guards : m'.world.guards = m.world.guards
  engine : m'.world.engine = m.world.engine
  scopes : m'.world.scopes = m.world.scopes

theorem Beside.trans (h : m.Beside m₁) (h' : m₁.Beside m') : m.Beside m' :=
  ⟨h'.guards.trans h.guards, h'.engine.trans h.engine, h'.scopes.trans h.scopes⟩

theorem beside_of_restacks {w : World} (h : m.world.Restacks w) : m.Beside { m with world := w } := by
  obtain ⟨heap, stack, rfl⟩ := h
  exact ⟨rfl, rfl, rfl⟩

theorem Gains.beside {g : Gain} (h : m.Gains g m') : m.Beside m' :=
  ⟨h.guards, h.engine, h.scopes⟩

theorem Beside.global? (h : m.Beside m') (x : String) :
    m'.world.global? 0 x = m.world.global? 0 x := by
  rw [World.global?, World.scope?, h.scopes]
  rfl

theorem Beside.idle (h : m.Beside m') (hm : m.Idle) : m'.Idle :=
  ⟨h.guards.trans hm.free, h.engine.trans hm.engine⟩

theorem sameCalls_of_moments (h : m'.moments = m.moments) (id : CellId) : m.SameCalls m' id := by
  constructor <;> rw [calls, h, calls]

namespace Idle

variable (h : m.Idle)
include h

theorem canRead (place : Place) : m.world.canRead place = true := by
  simp [World.canRead, h.free]

theorem canWrite (place : Place) : m.world.canWrite place = true := by
  simp [World.canWrite, h.free]

theorem visible? (id : CellId) : m.world.visible? id = m.world.heap.payload? id :=
  if_pos (h.canRead _)

theorem writable? (id : CellId) : m.world.writable? id = m.world.heap.payload? id :=
  if_pos (h.canWrite _)

end Idle

namespace Counts

variable (h : m.Counts)
include h

/-- What a script has in hand is the class, a counter that shows its number, or plain. -/
theorem hand_cases (hs : (Slot.cell id).Public) (hp : m.world.heap.payload? id = some p) :
    p = .classDesc className methods ∨ p = Program.counter (m.reading id) ∧ counterCell < id ∨
      (id = 0 ∨ counterCell < id) ∧ p.Plain ∧ ∀ s ∈ p.slots, s.Public := by
  cases h.cells id p hp with
  | counters => exact .inl rfl
  | maker => exact absurd rfl hs.1
  | counter => exact absurd rfl hs.2
  | reading hid => exact .inr (.inl ⟨rfl, hid⟩)
  | plain hid hplain hslots => exact .inr (.inr ⟨hid, hplain, hslots⟩)

theorem isCounter_iff : m.world.IsCounter id ↔
    counterCell < id ∧ m.world.heap.payload? id = some (Program.counter (m.reading id)) := by
  constructor
  · rintro ⟨p, hp, hcounter⟩
    obtain ⟨hid, rfl⟩ := (h.cells id p hp).of_isCounter hcounter
    exact ⟨hid, hp⟩
  · rintro ⟨-, hp⟩
    exact ⟨_, hp, rfl⟩

/-- A machine stays in order when payloads only go. -/
theorem keeps (hb : m.Beside m') (hcalls : ∀ id, m.SameCalls m' id)
    (hk : m.world.Keeps m'.world) : m'.Counts := by
  refine ⟨hb.idle h.toIdle, (hb.global? _).trans h.bound, ?_,
    Nat.lt_of_lt_of_le h.room hk.later.next, ?_, ?_⟩
  · intro x s hs
    rw [hb.global?] at hs
    exact h.globals x s hs
  · intro id p hp
    exact (h.cells id p (hk.payload id p hp)).later (hcalls id).reading
  · intro place id hplace hnoted
    refine Nat.lt_of_lt_of_le (h.noted place id hplace ?_) hk.later.next
    rcases hplace with rfl | rfl
    · rwa [← (hcalls id).1]
    · rwa [← (hcalls id).2]

/-- A machine stays in order when one cell gets a payload that is expected of it. Only the calls with that
cell for receiver may be others. -/
theorem sets (hb : m.Beside m') (hs : m.world.Sets id q m'.world)
    (hcalls : ∀ x, x ≠ id → m.SameCalls m' x) (hid : id < m'.world.heap.next)
    (hq : m'.Expects id q) : m'.Counts := by
  refine ⟨hb.idle h.toIdle, (hb.global? _).trans h.bound, ?_,
    Nat.lt_of_lt_of_le h.room hs.later.next, ?_, ?_⟩
  · intro x s hglobal
    rw [hb.global?] at hglobal
    exact h.globals x s hglobal
  · intro x p hp
    have hpayload := hs.payload x p hp
    split at hpayload
    · rename_i heq
      rw [heq, hpayload]
      exact hq
    · rename_i hne
      exact (h.cells x p hpayload).later (hcalls x hne).reading
  · intro place x hplace hnoted
    by_cases hx : x = id
    · exact hx ▸ hid
    · refine Nat.lt_of_lt_of_le (h.noted place x hplace ?_) hs.later.next
      rcases hplace with rfl | rfl
      · rwa [← (hcalls x hx).1]
      · rwa [← (hcalls x hx).2]

end Counts

end Machine
end Enclave
