import Enclave.Proofs.Program.Counting

/-! # Counters that scripts make and count up

A script counts up what is in a global, and the answer is the number that the counter shows then. A new
counter shows the number that it starts from. Nothing that another counter shows changes either way.
-/
namespace Enclave

open Act Program

namespace Program

/-- What scripts of the program run in, with room for calls inside one another. -/
def runs (patience depth : Nat) : Surroundings :=
  ⟨0, callNative patience (depth + 1), patience⟩

theorem safe_runs (t : Limits) (patience depth : Nat) : (runs patience depth).call.Safe t :=
  safe_callNative t patience (depth + 1)

end Program

namespace Machine

/-- From `m` to `m'` a cell became or stayed a counter, which was counted up so often since it started from
a number. No other cell was written. -/
structure Updates (m : Machine) (id : CellId) (count : Nat) (n : Float) (m' : Machine) : Prop where
  counts : m'.Counts
  beside : m.Beside m'
  known : id < m'.world.heap.next
  counted : m'.counted id = count
  start : m'.start id = n
  payload : ∀ x p, m'.world.heap.payload? x = some p →
    if x = id then p = counter (m'.reading id) else m.world.heap.payload? x = some p
  others : ∀ x, x ≠ id → m.SameCalls m' x

variable {m m' : Machine} {id : CellId} {count : Nat} {n : Float} {p q : Payload}
  {rest : List Slot}

namespace Updates

variable (h : m.Updates id count n m')
include h

theorem reading : m'.reading id = (· + 1.0)^[count] n := by
  rw [Machine.reading, h.counted, h.start]

/-- Payloads may go afterwards. -/
theorem keeps {w : World} (hr : m'.world.Restacks w) (hk : m'.world.Keeps w) :
    m.Updates id count n { m' with world := w } := by
  refine ⟨h.counts.moves hr hk, h.beside.trans (beside_of_restacks hr), ?_, h.counted, h.start, ?_,
    h.others⟩
  · exact Nat.lt_of_lt_of_le h.known hk.later.next
  · intro x p hp
    exact h.payload x p (hk.payload x p hp)

end Updates

/-- A call on one cell is none on another. -/
theorem sameCalls_of_call {place : Nat} {first : Option Slot} (hcalls : ∀ place' x, m'.calls place' x =
    (if place = place' ∧ id = x then [first] else []) ++ m.calls place' x) (x : CellId) (hx : x ≠ id) :
    m.SameCalls m' x := by
  have hother : ∀ place', m'.calls place' x = m.calls place' x := by
    intro place'
    rw [hcalls, if_neg fun hand => hx hand.2.symm, List.nil_append]
  exact ⟨hother _, hother _⟩

theorem put_beside (m : Machine) (id : CellId) (q : Payload) : m.Beside (m.put id q) :=
  ⟨rfl, rfl, rfl⟩

theorem sets_put (hp : m.world.heap.payload? id = some p) (q : Payload) :
    m.world.Sets id q (m.put id q).world := by
  have hwrite := World.sets_write hp q [] m.world.stack
  rwa [Heap.releaseSlots_nil] at hwrite

end Machine

/-- The class of a counter has the method. -/
theorem Program.counter_method {w : World} (n : Float)
    (hv : w.visible? classCell = some (.classDesc className methods)) :
    (counter n).member w (.scalar (.string methodName)) = .cell counterCell := by
  have hown : Table.get? [(countKey, Slot.scalar (.number n))] methodName = none := rfl
  have hfound : Table.get? methods methodName = some (.cell counterCell) := rfl
  simp only [counter, Payload.member, World.propertyName, hown, Option.bind_some, hv, hfound,
    Option.getD_some]

/-! ## Calls of methods -/

/-- What a call of a member does once its target and its key are on top of the stack. -/
def Act.callMember (on : Surroundings) (n : Nat) (given : List Slot) : Act Unit := do
  let t ← peek 1
  let k ← top
  getMember t k
  let method ← top
  match ← nativeOf method with
  | some _ => callSlot on.call method (some t) given
  | none => do
    let w ← world
    raise (.notFunction (w.propertyName k))
  settle (n + 3)

theorem Expr.eval_callMember (on : Surroundings) (target : Expr) (key : MemberKey) (args : Items) :
    (Expr.call (.member target key) args).eval on = args.evalArgs on >>= fun _ =>
      newest args.length >>= fun given => target.eval on >>= fun _ => key.eval on >>= fun _ =>
        callMember on args.length given := by
  rw [Expr.eval]
  rfl

namespace Machine.Counts

variable {t : Limits} {m m' : Machine} {id : CellId} {n : Float}
  {slots rest : List Slot} {es : List Event}

/-- What `inc` notes and leaves makes a counter count up. -/
theorem countsUp (h : m.Counts) (hid : counterCell < id)
    (hp : m.world.heap.payload? id = some (counter (m.reading id)))
    (hgains : (m.put id (counter (m.reading id + 1.0))).Gains ⟨slots, [], es⟩ m')
    (hpasses : ∀ place x, es.filterMap (Event.passes place x) =
      if counterPlace = place ∧ id = x then [none] else []) :
    m.Updates id (m.counted id + 1) (m.start id) m' := by
  have hcalls : ∀ place x, m'.calls place x =
      (if counterPlace = place ∧ id = x then [none] else []) ++ m.calls place x := by
    intro place x
    rw [hgains.calls, hpasses]
    rfl
  have hcounted : m'.counted id = m.counted id + 1 := by
    rw [Machine.counted, hcalls, if_pos ⟨rfl, rfl⟩]
    rfl
  have hstart : m'.start id = m.start id := by
    rw [Machine.start, hcalls, if_neg fun hand => absurd hand.1 (by decide)]
    rfl
  have hreading : m'.reading id = m.reading id + 1.0 := by
    rw [Machine.reading, hcounted, hstart, Function.iterate_succ_apply']
    rfl
  have hothers := sameCalls_of_call hcalls
  rw [← hreading] at hgains
  have hsets := (sets_put hp (counter (m'.reading id))).keeps (World.keeps_of_gains hgains)
  have hlt : id < m'.world.heap.next :=
    Nat.lt_of_lt_of_le (Heap.lt_next_of_payload? hp) hsets.later.next
  have hbeside := (put_beside m id _).trans hgains.beside
  refine ⟨?_, hbeside, hlt, hcounted, hstart, hsets.payload, hothers⟩
  exact h.sets hbeside hsets hothers hlt (.reading hid)

/-- The method of a counter comes to hand, and is called with nothing but the counter. -/
theorem callMember_method (h : m.Counts) (hg : m.Good t []) (patience depth : Nat)
    (hs : m.world.stack = .scalar (.string methodName) :: .cell id :: rest)
    (hp : m.world.heap.payload? id = some (counter n)) :
    ∃ m₁, m.Gains ⟨[.cell counterCell], [], []⟩ m₁ ∧ m₁.world.heap.Proper ∧
      callMember (runs patience depth) 0 [] m =
        (callSlot (runs patience depth).call (.cell counterCell) (some (.cell id)) [] >>= fun _ =>
          settle 3) m₁ := by
  have hmethod := h.counter_payload hg
  have hmethodAlive : m.world.Alive (.cell counterCell) := by
    rintro _ ⟨⟩
    exact Heap.isLive_of_payload? hmethod
  let m₁ : Machine := { m with world := m.world.share (.cell counterCell) }
  have hgains : m.Gains ⟨[.cell counterCell], [], []⟩ m₁ := by
    have hshare := (Machine.Gains.refl m).share (.cell counterCell)
    rwa [World.found_of_alive hmethodAlive] at hshare
  have hproper : m₁.world.heap.Proper :=
    (hg.move (m.world.move_share t (.cell counterCell)) List.nil_suffix).sound.counted.proper
  have hclass : m.world.visible? classCell = some (.classDesc className methods) :=
    (h.visible? classCell).trans (h.class_payload hg)
  have hv₁ : m₁.world.visible? counterCell = some (.function (.closure (some counterPlace))) := by
    rw [(hgains.beside.idle h.toIdle).visible?, hgains.heap.payload?, hmethod]
  have hpeek : peek 1 m = .done (.cell id) m := by
    have hstack : m.world.stack.getD 1 .null = .cell id := by
      rw [hs]
      rfl
    exact congrArg (Outcome.done · m) hstack
  have hget : getMember (.cell id) (.scalar (.string methodName)) m = .done () m₁ := by
    rw [getMember_eq ((h.visible? id).trans hp), counter_method _ hclass]
    rfl
  have htop₁ : m₁.world.top = .cell counterCell := World.top_of_stack hgains.stack
  refine ⟨m₁, hgains, hproper, ?_⟩
  rw [callMember, bind_done hpeek, bind_done (top_eq _), World.top_of_stack hs, bind_done hget,
    bind_done (top_eq _), htop₁, bind_done (nativeOf_eq hv₁)]

/-- On a counter `inc` without arguments counts it up, and answers with the number that it shows then. -/
theorem callMember_inc (h : m.Counts) (hg : m.Good t []) (patience depth : Nat)
    (hs : m.world.stack = .scalar (.string methodName) :: .cell id :: rest)
    (hcounter : m.world.IsCounter id) :
    ∃ m', callMember (runs patience depth) 0 [] m = .done () m' ∧
      m.Updates id (m.counted id + 1) (m.start id) m' ∧
      m'.world.stack = .scalar (.number (m'.reading id)) :: rest := by
  obtain ⟨hid, hp⟩ := h.isCounter_iff.mp hcounter
  obtain ⟨m₁, hgains, hproper₁, hrun⟩ := h.callMember_method hg patience depth hs hp
  have hmethod : m₁.world.heap.payload? counterCell = some (.function (.closure (some counterPlace))) := by
    rw [hgains.heap.payload?, h.counter_payload hg]
  obtain ⟨es, m₂, hcall, hgains₂, hpasses⟩ := (hgains.beside.idle h.toIdle).callSlot_counts hproper₁
    patience depth ((hgains.heap.payload? id).trans hp) hmethod
  let q := counter (m.reading id + 1.0)
  have hsum : (m.put id q).Gains
      ⟨.scalar (.number (m.reading id + 1.0)) :: ([.cell counterCell] ++ []), [], es⟩ m₂ := by
    have hboth := (hgains.put hp q).trans hgains₂
    rw [List.append_nil es] at hboth
    exact hboth
  have hupdates := h.countsUp hid hp hsum hpasses
  have hreading : m.reading id + 1.0 = m₂.reading id := by
    rw [hupdates.reading, Function.iterate_succ_apply']
    rfl
  have hstack : m₂.world.stack = .scalar (.number (m.reading id + 1.0)) ::
      ([.cell counterCell, .scalar (.string methodName), .cell id] ++ rest) :=
    hsum.stack.trans (congrArg ([.scalar (.number (m.reading id + 1.0)), .cell counterCell] ++ ·) hs)
  refine ⟨{ m₂ with world := m₂.world.settle 3 }, hrun.trans (bind_done hcall),
    hupdates.keeps (World.restacks_settle _ 3) (World.keeps_settle _ 3), ?_⟩
  exact (World.stack_settle hstack).trans (by rw [hreading]; rfl)

end Machine.Counts

/-! ## New counters -/

theorem World.restacks_allocInstance (w : World) (classId : CellId) :
    w.Restacks (w.allocInstance classId) := by
  unfold allocInstance
  split <;> exact ⟨_, _, rfl⟩

namespace Machine

/-- The machine with a new instance of the class of counters over its constructor. -/
def instantiated (m : Machine) : Machine :=
  { m with world := m.world.instantiated classCell methods }

theorem beside_instantiated (m : Machine) : m.Beside m.instantiated :=
  beside_of_restacks <|
    (m.world.restacks_share (.cell makerCell)).trans (World.restacks_allocInstance _ classCell)

theorem move_instantiated (t : Limits) (m : Machine) : World.Move t m.world m.instantiated.world :=
  (m.world.move_share t (.cell makerCell)).trans (World.move_allocInstance t _ classCell)

end Machine

namespace Machine.Counts

variable {t : Limits} {m m' : Machine} {n : Float} {es : List Event}
  {xs rest : List Slot} (h : m.Counts) (hg : m.Good t [])
include h hg

theorem payload?_instantiated (x : CellId) : m.instantiated.world.heap.payload? x =
    if x = m.world.heap.next then some (.object [] (some classCell)) else m.world.heap.payload? x :=
  Enclave.payload?_instantiated hg.sound.counted.proper
    ((h.visible? classCell).trans (h.class_payload hg)) x

theorem stack_instantiated : m.instantiated.world.stack =
    .cell m.world.heap.next :: .cell makerCell :: m.world.stack :=
  Enclave.stack_instantiated hg.sound.counted.proper
    ((h.visible? classCell).trans (h.class_payload hg))

/-- What the constructor notes and leaves makes a new counter. -/
theorem makes (hgains : (m.instantiated.put m.world.heap.next (counter n)).Gains ⟨[], [], es⟩ m')
    {first : Option Slot} (hpasses : ∀ place x, es.filterMap (Event.passes place x) =
      if makerPlace = place ∧ m.world.heap.next = x then [first] else [])
    (hfirst : startOf first = n) : m.Updates m.world.heap.next 0 n m' := by
  have hcalls : ∀ place x, m'.calls place x =
      (if makerPlace = place ∧ m.world.heap.next = x then [first] else []) ++ m.calls place x := by
    intro place x
    rw [hgains.calls, hpasses]
    rfl
  have hnone : ∀ place, place = makerPlace ∨ place = counterPlace →
      m.calls place m.world.heap.next = [] := by
    intro place hplace
    by_contra hne
    exact Nat.lt_irrefl _ (h.noted place _ hplace hne)
  have hcounted : m'.counted m.world.heap.next = 0 := by
    rw [Machine.counted, hcalls, if_neg fun hand => absurd hand.1 (by decide), hnone _ (.inr rfl)]
    rfl
  have hstart : m'.start m.world.heap.next = n := by
    rw [Machine.start, hcalls, if_pos ⟨rfl, rfl⟩]
    exact hfirst
  have hreading : m'.reading m.world.heap.next = n := by
    rw [Machine.reading, hcounted, hstart]
    rfl
  have hothers := sameCalls_of_call hcalls
  rw [← hreading] at hgains
  have hmade := (h.payload?_instantiated hg m.world.heap.next).trans (if_pos rfl)
  have hlater : m.instantiated.world.heap.Later m'.world.heap :=
    (Heap.later_setPayload _ _ _).trans hgains.later
  have hsets : m.world.Sets m.world.heap.next (counter (m'.reading m.world.heap.next)) m'.world := by
    refine ⟨(m.move_instantiated t).later.trans hlater, fun x p hp => ?_⟩
    rw [hgains.heap.payload?] at hp
    have hput := (Heap.payload?_setPayload hmade _ x).symm.trans hp
    split
    · rw [if_pos ‹_›, Option.some.injEq] at hput
      exact hput.symm
    · rwa [if_neg ‹_›, h.payload?_instantiated hg, if_neg ‹_›] at hput
  have hlt : m.world.heap.next < m'.world.heap.next :=
    Nat.lt_of_lt_of_le (Heap.lt_next_of_payload? hmade) hlater.next
  have hbeside := (m.beside_instantiated.trans (put_beside m.instantiated _ _)).trans hgains.beside
  refine ⟨?_, hbeside, hlt, hcounted, hstart, hsets.payload, hothers⟩
  exact h.sets hbeside hsets hothers hlt (.reading h.room)

/-- With the class and arguments that are not too many in hand, `new` makes a counter. -/
theorem construct_makes (patience depth : Nat) (hs : m.world.stack = xs ++ .cell classCell :: rest)
    (hn : xs.length ≤ Config.default.maxArguments) :
    ∃ m', (construct (runs patience depth).call (.cell classCell) (m.world.newest xs.length) >>=
        fun _ => settle (xs.length + 1)) m = .done () m' ∧
      m.Updates m.world.heap.next 0 (startOf (m.world.newest xs.length).head?) m' ∧
        m'.world.stack = .cell m.world.heap.next :: rest := by
  let id := m.world.heap.next
  let slots := m.world.newest xs.length
  have hslots : slots = xs.reverse := by
    change (m.world.stack.take xs.length).reverse = _
    rw [hs, List.take_left]
  have hproper := hg.sound.counted.proper
  have hv : m.world.visible? classCell = some (.classDesc className methods) :=
    (h.visible? classCell).trans (h.class_payload hg)
  have hidle : m.instantiated.Idle := m.beside_instantiated.idle h.toIdle
  have hgood : m.instantiated.Good t [] := hg.move (m.move_instantiated t) List.nil_suffix
  have hstack := h.stack_instantiated hg
  have hmade : m.instantiated.world.heap.payload? id = some (.object [] (some classCell)) :=
    (h.payload?_instantiated hg id).trans (if_pos rfl)
  have hmaker : m.instantiated.world.heap.payload? makerCell =
      some (.function (.closure (some makerPlace))) := by
    have hne : makerCell ≠ id := Nat.ne_of_lt (Nat.lt_trans (by decide) h.room)
    rw [h.payload?_instantiated hg, if_neg hne, h.maker_payload hg]
  have halive : ∀ s ∈ slots, m.instantiated.world.Alive s := by
    rintro s hmem x rfl
    apply World.isLive_of_stack hgood.sound.counted
    rw [hslots, List.mem_reverse] at hmem
    rw [hstack, hs]
    simp [hmem]
  obtain ⟨es, m₁, hcall, hgains, hpasses⟩ := hidle.callSlot_starts hgood.sound.counted.proper patience
    depth hmade hmaker halive (by rwa [hslots, List.length_reverse])
  have hproper' : (m.instantiated.put id (counter (startOf slots.head?))).world.heap.Proper :=
    hgood.sound.counted.proper.setPayload hmade rfl fun x hx => by
      simpa [Payload.slots, counter, Table.values] using hx
  have hdropped := hgains.drop hproper'
  have hmakes := h.makes hg hdropped hpasses (startOf_lend _ _)
  have hstack₂ : m₁.world.drop.stack = .cell id :: ([.cell makerCell] ++ (xs ++ .cell classCell :: rest)) :=
    hdropped.stack.trans (hstack.trans (by rw [hs]; rfl))
  have hstack₃ : (m₁.world.drop.settle 1).stack = .cell id :: ((xs ++ [.cell classCell]) ++ rest) := by
    rw [List.append_assoc]
    exact World.stack_settle hstack₂
  have hlength : (xs ++ [Slot.cell classCell]).length = xs.length + 1 := by simp
  have hstack₄ : ((m₁.world.drop.settle 1).settle (xs.length + 1)).stack = .cell id :: rest :=
    hlength ▸ World.stack_settle hstack₃
  let m₂ : Machine := { m₁ with world := m₁.world.drop }
  have hmakes₃ := hmakes.keeps (World.restacks_settle m₂.world 1) (World.keeps_settle m₂.world 1)
  have hmakes₄ := hmakes₃.keeps (World.restacks_settle _ (xs.length + 1))
    (World.keeps_settle _ (xs.length + 1))
  refine ⟨_, ?_, hmakes₄, hstack₄⟩
  rw [bind_congr (construct_eq _ slots hproper hv rfl), bind_bind]
  exact (bind_done hcall).trans rfl

end Machine.Counts
end Enclave
