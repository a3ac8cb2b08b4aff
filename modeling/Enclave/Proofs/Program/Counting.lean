import Enclave.Proofs.Host.Construction
import Enclave.Proofs.Host.Reads
import Enclave.Proofs.Program.Accesses

/-! # What the program's functions do

The function that adds leaves nothing but its answer in hand. The constructor of counters and what counts
them up each give one cell a number and answer, and nothing else changes. Calls that begin are noted by
the function and the receiver, so the notes say which counter was counted up.
-/
namespace Enclave

open Act Program

namespace Heap

variable {h h₁ h' : Heap} {slots more : List Slot} {id : CellId} {p q : Payload}

theorem Raised.trans (hr : h.Raised slots h₁) (hr' : h₁.Raised more h') :
    h.Raised (more ++ slots) h' := by
  refine ⟨hr'.next.trans hr.next, fun id => ?_⟩
  rw [hr'.cells, hr.cells, Option.map_map]
  refine congrArg (Option.map · _) (funext fun cell => ?_)
  simp only [Function.comp_apply, holders_append, Nat.add_assoc, Nat.add_comm (holders slots id)]

theorem next_setPayload (h : Heap) (id : CellId) (q : Payload) : (h.setPayload id q).next = h.next := by
  unfold setPayload
  split
  · exact Array.size_setIfInBounds
  · rfl

/-- A new payload does not matter to the counts. -/
theorem Raised.setPayload (hr : h.Raised slots h') (hp : h.payload? id = some p) (q : Payload) :
    (h.setPayload id q).Raised slots (h'.setPayload id q) := by
  obtain ⟨cell, hcell, -⟩ := Option.map_eq_some_iff.mp hp
  have hcell' : h'.cell? id = some { cell with refs := cell.refs + holders slots id } := by
    rw [hr.cells, hcell, Option.map_some]
  refine ⟨by rw [next_setPayload, next_setPayload, hr.next], fun x => ?_⟩
  rw [cell?_setPayload hcell', cell?_setPayload hcell]
  by_cases hx : x = id
  · rw [if_pos hx, if_pos hx, hx, Option.map_some]
  · rw [if_neg hx, if_neg hx, hr.cells]

/-- A payload of the same kind may take the place of another if it holds no new references. -/
theorem Proper.setPayload (hc : h.Proper) (hp : h.payload? id = some p) (hkind : q.kind = p.kind)
    (hslots : ∀ x, Slot.cell x ∈ q.slots → Slot.cell x ∈ p.slots) : (h.setPayload id q).Proper := by
  obtain ⟨cell, hcell, rfl⟩ := Option.map_eq_some_iff.mp hp
  have hlive : ∀ x, (h.setPayload id q).isLive x = h.isLive x := by
    intro x
    rw [isLive, cell?_setPayload hcell]
    by_cases hx : x = id
    · rw [if_pos hx, hx, isLive, hcell]
      rfl
    · rw [if_neg hx, isLive]
  refine ⟨fun x c hx => ?_, fun x c hx => ?_, fun x r hx y hy => ?_⟩
  · rw [cell?_setPayload hcell] at hx
    split at hx
    · cases hx
      exact hc.positive id cell hcell
    · exact hc.positive x c hx
  · rw [cell?_setPayload hcell] at hx
    split at hx
    · cases hx
      exact (hc.kinds id cell hcell).trans hkind.symm
    · exact hc.kinds x c hx
  · rw [payload?_setPayload hp] at hx
    rw [hlive]
    split at hx
    · cases hx
      exact hc.closed id cell.payload hp y (hslots y hy)
    · exact hc.closed x r hx y hy

end Heap

namespace Machine

variable {m₀ m₁ m : Machine} {g : Gain} {ss ss' : List Slot} {bs bs' : List Nat} {es es' : List Event}
  {id : CellId} {p q : Payload}

theorem Gains.trans (h : m₀.Gains ⟨ss, bs, es⟩ m₁) (h' : m₁.Gains ⟨ss', bs', es'⟩ m) :
    m₀.Gains ⟨ss' ++ ss, bs' ++ bs, es' ++ es⟩ m := by
  obtain ⟨new, hnew, hevents⟩ := h.moments
  obtain ⟨new', hnew', hevents'⟩ := h'.moments
  refine ⟨h.heap.trans h'.heap, ?_, ?_, ?_, new' ++ new, ?_, ?_⟩
  · rw [h'.stack, h.stack, List.append_assoc]
  · rw [h'.blocks, h.blocks, List.append_assoc]
  · have hrest := congrArg (fun w : World => { w with
      heap := m₀.world.heap, ledger := m₀.world.ledger, stack := m₀.world.stack }) h'.rest
    exact hrest.trans h.rest
  · rw [hnew', hnew, List.append_assoc]
  · rw [List.map_append, hevents, hevents']

/-- The machine with another payload in one cell. -/
def put (m : Machine) (id : CellId) (q : Payload) : Machine :=
  { m with world := { m.world with heap := m.world.heap.setPayload id q } }

theorem Gains.put (h : m₀.Gains g m) (hp : m₀.world.heap.payload? id = some p) (q : Payload) :
    (m₀.put id q).Gains g (m.put id q) :=
  ⟨h.heap.setPayload hp q, h.stack, h.blocks, congrArg (fun w : World => { w with
    heap := (m₀.put id q).world.heap }) h.rest, h.moments⟩

end Machine

namespace Act

variable {α β : Type} {m₀ m : Machine} {g : Gain} {ss taken : List Slot} {bs : List Nat}
  {es : List Event} {id : CellId} {p q : Payload} {x : Act α} {f : α → Act β} {Q : α → Gain → Prop}
  {R : β → Gain → Prop} {on : Surroundings} {base : Nat} {properties : Table Slot}
  {link : Option CellId} {key : String}

/-- From every machine that has gained `g` over `m₀` the act succeeds, and what it leaves is gained over
`m₀` with another payload in one cell. -/
def Puts (m₀ : Machine) (g : Gain) (id : CellId) (q : Payload) (x : Act α) (Q : α → Gain → Prop) : Prop :=
  ∀ m, m₀.Gains g m → ∃ a g' m', x m = .done a m' ∧ (m₀.put id q).Gains g' m' ∧ Q a g'

theorem Turns.puts (hx : Turns m₀ g x Q) (hf : ∀ a g', Q a g' → Puts m₀ g' id q (f a) R) :
    Puts m₀ g id q (x >>= f) R := by
  intro m hm
  obtain ⟨a, g₁, m₁, hrun, hm₁, hq⟩ := hx m hm
  obtain ⟨b, g₂, m₂, hrun', hm₂, hr⟩ := hf a g₁ hq m₁ hm₁
  exact ⟨b, g₂, m₂, (bind_done hrun).trans hrun', hm₂, hr⟩

theorem Puts.turns (hx : Puts m₀ g id q x Q) (hf : ∀ a g', Q a g' → Turns (m₀.put id q) g' (f a) R) :
    Puts m₀ g id q (x >>= f) R := by
  intro m hm
  obtain ⟨a, g₁, m₁, hrun, hm₁, hq⟩ := hx m hm
  obtain ⟨b, g₂, m₂, hrun', hm₂, hr⟩ := hf a g₁ hq m₁ hm₁
  exact ⟨b, g₂, m₂, (bind_done hrun).trans hrun', hm₂, hr⟩

/-! ## Steps of host code -/

theorem turns_viewObject (hlive : m₀.world.heap.isLive id = true) :
    Turns m₀ ⟨ss, bs, es⟩ (perform on base (.view .object (.handle .object id))) fun reply k =>
      reply = .ok ⟨some id⟩ ∧ k = ⟨.cell id :: ss, bs, es⟩ := by
  have halive : m₀.world.Alive (.cell id) := by
    rintro _ ⟨⟩
    exact hlive
  exact (turns_share halive).step (turns_pure _ ⟨rfl, rfl⟩)

/-- A number is written where a number or nothing was. -/
theorem puts_objectSet (hp : m₀.world.heap.Proper) (hfree : m₀.world.guards = [])
    (hv : m₀.world.heap.payload? id = some (.object properties link)) (hkey : Text.IsPlain key)
    {old : Scalar} (hold : (properties.get? key).getD .null = .scalar old) (n : Float) :
    Puts m₀ ⟨ss, bs, es⟩ id (.object (properties.put key (.scalar (.number n))) link)
      (perform on base (.objectSet ⟨some id⟩ key (.number n))) fun reply k =>
        reply = .ok () ∧ k = ⟨ss, bs, es⟩ := by
  intro m hm
  let q : Payload := .object (properties.put key (.scalar (.number n))) link
  have hguards : m.world.guards = [] := hm.guards.trans hfree
  have hpayload : m.world.heap.payload? id = some (.object properties link) :=
    (hm.heap.payload? id).trans hv
  have hwritable : m.world.writable? id = some (.object properties link) := by
    rw [World.writable?, World.canWrite, hguards, hpayload]
    simp
  have hvisible : m₀.world.visible? id = some (.object properties link) := by
    rw [World.visible?, World.canRead, hfree, hv]
    simp
  have hcell : m.world.cellOf? .object (some id) = some id := hm.cellOf?_of_visible hp hvisible
  have hstored : m.world.stored (Record.ofNumber n).slot id q (.scalar old) = (m.put id q).world := by
    change ({ m.world with
      heap := (m.world.heap.setPayload id q).releaseSlots [.scalar old] } : World) = _
    rw [Heap.releaseSlots_scalar]
    rfl
  have hrun : perform on base (.objectSet ⟨some id⟩ key (.number n)) m =
      .done (.ok ()) (m.put id q) := by
    have hexchange : Payload.putProperty key (.object properties link)
        (m.world.found (Record.ofNumber n).slot) = some (q, .scalar old) := by
      rw [← hold]
      rfl
    have hstore := storeInto_stored hcell hwritable hexchange
    rw [hstored] at hstore
    have hset : perform on base (.objectSet ⟨some id⟩ key (.number n)) =
        storeInto .object (some id) (some (Record.ofNumber n)) (Payload.putProperty key) >>=
          confirm .objectSet := by
      simp only [perform, writeKeyed, View.target, whenOk, sentText_plain hkey, Value.number, Value.lend,
        objectSet, readText_encode, Text.cut_eq_self hkey]
      rfl
    rw [hset, bind_done hstore]
    rfl
  exact ⟨_, _, _, hrun, hm.put hv q, rfl, rfl⟩

/-- What code ends with is answered. -/
theorem turns_answer (hp : m₀.world.heap.Proper) {v : Scalar}
    (hv : m₀.world.image (.scalar v) = .scalar v) (marker : String) :
    Turns m₀ ⟨taken, bs, es⟩
      (runCode on m₀.world.stack.length (.finish (.scalar v)) >>= fun outcome =>
        conclude m₀.world.stack.length marker outcome >>= fun r =>
          note (.returned r) >>= fun _ => adoptReturn r) fun _ k =>
      ∃ r, k = ⟨[.scalar v], bs, [.returned r] ++ es⟩ := by
  have hcut : (Slot.scalar v).cut = .scalar v := by
    rw [← World.slot_image m₀.world, hv]
    rfl
  have hfinish : Turns m₀ ⟨taken, bs, es⟩ (runCode on m₀.world.stack.length (.finish (.scalar v)))
      fun outcome k => outcome = .ok (.scalar v) ∧ k = ⟨.scalar v :: (taken ++ []), bs, es⟩ := by
    rw [List.append_nil]
    exact (turns_push v).step (turns_pure _ ⟨rfl, rfl⟩)
  apply hfinish.then
  have hconclude : Turns m₀ ⟨.scalar v :: (taken ++ []), bs, es⟩
      (conclude m₀.world.stack.length marker (.ok (.scalar v))) fun r k =>
        ∃ e b, m₀.world.Gives (.scalar v) r e b ∧ k = ⟨[e], b ++ bs, es⟩ := by
    have hback : Turns m₀ ⟨[(Slot.scalar v).cut], bs, es⟩ (handBack (m₀.world.image (.scalar v))) _ :=
      turns_handBack hp (.scalar v)
    rw [hcut, hv] at hback
    exact (turns_settleTo hp _ (by simp)).step hback
  apply hconclude.bind
  rintro r _ ⟨e, b, hgives, rfl⟩
  refine (turns_note _).step ?_
  apply (turns_adoptReturn hp (World.alive_scalar v) hgives).weaken
  rintro _ _ rfl
  exact ⟨r, by rw [hcut]; rfl⟩

/-- The message that code fails with is answered. -/
theorem turns_answerFailure (hp : m₀.world.heap.Proper) (config : Config) (e : ClosureError) :
    Turns m₀ ⟨taken, bs, es⟩
      (runCode on m₀.world.stack.length (.fail e) >>= fun outcome =>
        conclude m₀.world.stack.length config.errorMarker outcome >>= fun r =>
          note (.returned r) >>= fun _ => adoptReturn r) fun _ k =>
      ∃ v r, k = ⟨[.scalar v], bs, [.returned r] ++ es⟩ := by
  have hfail : Turns m₀ ⟨taken, bs, es⟩ (runCode on m₀.world.stack.length (.fail e))
      fun outcome k => outcome = .error e.message ∧ k = ⟨taken ++ [], bs, es⟩ := by
    rw [List.append_nil]
    exact turns_pure _ ⟨rfl, rfl⟩
  apply hfail.then
  apply (turns_concludeError hp config e.message _ (by simp)).bind
  rintro r _ ⟨block, rfl, rfl⟩
  refine (turns_note _).step ?_
  apply (turns_adoptReturn hp (World.alive_scalar _) (.text _ block)).weaken
  rintro _ _ rfl
  exact ⟨_, _, rfl⟩

/-! ## The three functions -/

theorem puts_request {r : Request} {reply : r.Reply} {next : r.Reply → HostCode}
    {f : Except String Value → Act β}
    (hr : Turns m₀ g (perform on base r) fun a k => a = reply ∧ k = ⟨ss, bs, es⟩)
    (hnext : Puts m₀ ⟨ss, bs, .resumed :: es⟩ id q (runCode on base (next reply) >>= f) R) :
    Puts m₀ g id q (runCode on base (.request r next) >>= f) R := by
  rw [runCode, bind_bind]
  apply hr.puts
  rintro _ _ ⟨rfl, rfl⟩
  rw [bind_bind]
  apply (turns_note _).puts
  rintro _ _ rfl
  exact hnext

theorem puts_lastRequest {r : Request} {reply : r.Reply} {next : r.Reply → HostCode}
    {f : Except String Value → Act β}
    (hr : Puts m₀ g id q (perform on base r) fun a k => a = reply ∧ k = ⟨ss, bs, es⟩)
    (hnext : Turns (m₀.put id q) ⟨ss, bs, .resumed :: es⟩ (runCode on base (next reply) >>= f) R) :
    Puts m₀ g id q (runCode on base (.request r next) >>= f) R := by
  rw [runCode, bind_bind]
  apply hr.turns
  rintro _ _ ⟨rfl, rfl⟩
  rw [bind_bind]
  exact (turns_note _).step hnext

theorem plain_countKey : Text.IsPlain countKey := by decide

/-- Code that adds ends with a number, or fails. -/
theorem addTwo_cases (captured args : List Value) (this : Value) :
    (∃ n, Stock.addTwo.body captured args this = .finish (.number n)) ∨
      ∃ e, Stock.addTwo.body captured args this = .fail e := by
  have hcases : ∀ i, (∃ n, Stock.strictNumberAt args i = pure n) ∨
      ∃ e, Stock.strictNumberAt args i = Plan.fail e := by
    intro i
    unfold Stock.strictNumberAt
    split
    · exact .inl ⟨_, rfl⟩
    · exact .inr ⟨_, rfl⟩
  have hcode : Stock.addTwo.body captured args this =
      (Stock.strictNumberAt args 0) fun a => (Stock.strictNumberAt args 1) fun b =>
        .finish (.number (a + b)) := rfl
  rw [hcode]
  rcases hcases 0 with ⟨a, ha⟩ | ⟨e, he⟩
  · rw [ha]
    rcases hcases 1 with ⟨b, hb⟩ | ⟨e, he⟩
    · rw [hb]
      exact .inl ⟨_, rfl⟩
    · rw [he]
      exact .inr ⟨_, rfl⟩
  · rw [he]
    exact .inr ⟨_, rfl⟩

/-- A call's code and everything up to its answer. -/
def answering (on : Surroundings) (base : Nat) (config : Config) (code : HostCode) : Act Unit :=
  runCode on base code >>= fun outcome =>
    conclude base config.errorMarker outcome >>= fun r => note (.returned r) >>= fun _ => adoptReturn r

section Functions

variable {n : Float} {config : Config} (hp : m₀.world.heap.Proper)
include hp

theorem turns_adding (captured args : List Value) (this : Value) :
    Turns m₀ ⟨taken, bs, es⟩
      (answering on m₀.world.stack.length config (Stock.addTwo.body captured args this)) fun _ k =>
        ∃ v r, k = ⟨[.scalar v], bs, [.returned r] ++ es⟩ := by
  rcases addTwo_cases captured args this with ⟨n, hcode⟩ | ⟨e, hcode⟩
  · rw [hcode]
    apply (turns_answer hp rfl _).weaken
    rintro _ _ ⟨r, rfl⟩
    exact ⟨_, r, rfl⟩
  · rw [hcode]
    exact turns_answerFailure hp config e

variable (hfree : m₀.world.guards = [])
include hfree

/-- The constructor writes the number of its first argument into an empty counter. -/
theorem puts_starting (hv : m₀.world.heap.payload? id = some (.object [] (some classCell)))
    (captured args : List Value) :
    Puts m₀ ⟨taken, bs, es⟩ id (counter (Stock.numberAt args 0))
      (answering on m₀.world.stack.length config
        ((Stock.storingNumber countKey).body captured args (.handle .object id))) fun _ k =>
          ∃ r, k = ⟨[.null], bs, [.returned r, .resumed, .resumed] ++ es⟩ := by
  have hproper : (m₀.put id (counter (Stock.numberAt args 0))).world.heap.Proper :=
    hp.setPayload hv rfl fun x hx => by simpa [Payload.slots, counter, Table.values] using hx
  have hold : (Table.get? ([] : Table Slot) countKey).getD .null = .scalar .null := rfl
  apply puts_request (turns_viewObject (Heap.isLive_of_payload? hv))
  apply puts_lastRequest (puts_objectSet hp hfree hv plain_countKey hold _)
  exact turns_answer hproper rfl config.errorMarker

/-- What counts a counter up answers with the number that it shows then. -/
theorem puts_counting (hv : m₀.world.heap.payload? id = some (counter n)) (captured args : List Value) :
    Puts m₀ ⟨taken, bs, es⟩ id (counter (n + 1.0))
      (answering on m₀.world.stack.length config
        ((Stock.counting countKey).body captured args (.handle .object id))) fun _ k =>
          ∃ r, k = ⟨[.scalar (.number (n + 1.0))], bs,
            [.returned r, .resumed, .resumed, .resumed] ++ es⟩ := by
  have hproper : (m₀.put id (counter (n + 1.0))).world.heap.Proper :=
    hp.setPayload hv rfl fun x hx => by simpa [Payload.slots, counter, Table.values] using hx
  have hvisible : m₀.world.visible? id = some (counter n) := by
    rw [World.visible?, World.canRead, hfree, hv]
    simp
  have hold : (Table.get? [(countKey, Slot.scalar (.number n))] countKey).getD .null =
      .scalar (.number n) := rfl
  apply puts_request (turns_viewObject (Heap.isLive_of_payload? hv))
  apply puts_request (turns_keyedValue hp hvisible plain_countKey)
  apply puts_lastRequest (puts_objectSet hp hfree hv plain_countKey hold _)
  exact turns_answer hproper rfl config.errorMarker

end Functions

end Act

/-! ## Calls of the cells -/

/-- What the host makes of an argument as a number is where a counter starts. -/
theorem Act.startOf_image (w : World) (slots : List Slot) :
    Stock.numberAt (slots.map w.image) 0 = startOf slots.head? := by
  cases slots with
  | nil => rfl
  | cons s rest =>
    cases s with
    | cell id => rfl
    | scalar v => cases v <;> rfl

/-- So is what the runtime makes of its record. -/
theorem Act.startOf_lend (w : World) (slots : List Slot) :
    startOf (slots.head?.map fun s => (w.lend s).slot) = startOf slots.head? := by
  cases slots with
  | nil => rfl
  | cons s rest =>
    cases s with
    | cell id =>
      change startOf (some (Record.ofHandle (w.kindOf (.cell id)) id).slot) = 0.0
      cases w.kindOf (.cell id) <;> rfl
    | scalar v =>
      cases v with
      | bool b => cases b <;> rfl
      | null | number | string => rfl

/-- A call passes its first argument to its receiver. -/
theorem Act.passes_entering (w : World) (f : CellId) (place : Nat) (slots : List Slot) (s : Slot)
    (place' : Nat) (x : CellId) :
    (entering w f place slots (some s)).passes place' x =
      if place = place' ∧ (w.lend s).slot.cell? = some x then
        some (slots.head?.map fun s => (w.lend s).slot)
      else none := by
  cases slots <;> rfl

namespace Machine.Counts

variable {t : Limits} {m : Machine} (h : m.Counts) (hg : m.Good t [])
include h hg

theorem class_payload : m.world.heap.payload? classCell = some (.classDesc className methods) := by
  obtain ⟨p, hp⟩ := Heap.exists_payload? (World.isLive_of_global hg.sound.counted h.bound)
  cases h.cells classCell p hp with
  | counters => exact hp
  | reading hid => exact absurd hid (by decide)
  | plain hid => exact absurd hid (by decide)

theorem maker_payload :
    m.world.heap.payload? makerCell = some (.function (.closure (some makerPlace))) := by
  have hlive := hg.sound.counted.proper.closed classCell _ (h.class_payload hg) makerCell
    (by simp [Payload.slots, methods, Table.values])
  obtain ⟨p, hp⟩ := Heap.exists_payload? hlive
  cases h.cells makerCell p hp with
  | maker => exact hp
  | reading hid => exact absurd hid (by decide)
  | plain hid => exact absurd hid (by decide)

theorem counter_payload :
    m.world.heap.payload? counterCell = some (.function (.closure (some counterPlace))) := by
  have hlive := hg.sound.counted.proper.closed classCell _ (h.class_payload hg) counterCell
    (by simp [Payload.slots, methods, Table.values])
  obtain ⟨p, hp⟩ := Heap.exists_payload? hlive
  cases h.cells counterCell p hp with
  | counter => exact hp
  | reading hid => exact absurd hid (by decide)
  | plain hid => exact absurd hid (by decide)

end Machine.Counts

namespace Machine.Idle

variable {m : Machine} {id f : CellId} {place : Nat} {b : Binding} {slots : List Slot}
  {receiver : Option Slot} {n : Float} (h : m.Idle) (hp : m.world.heap.Proper) (patience depth : Nat)
include h hp

/-- A call of one of the program's functions runs its code, if the arguments are not too many. -/
theorem callSlot_runs (hbinding : Program.engine.bindings[place]? = some b)
    (hv : m.world.heap.payload? f = some (.function (.closure (some place))))
    (halive : ∀ s ∈ slots ++ receiver.toList, m.world.Alive s)
    (hn : slots.length ≤ Config.default.maxArguments) :
    ∃ taken m₁, m.Gains ⟨taken, [], [calledWith m.world b slots receiver,
        entering m.world f place slots receiver]⟩ m₁ ∧
      callSlot (callNative patience (depth + 1)) (.cell f) receiver slots m =
        answering (inside m.world patience depth) m.world.stack.length .default
          (b.body b.captured (slots.map m.world.image) ((receiver.map m.world.image).getD .null)) m₁ := by
  have hrunning : m.world.engine.running = true := by rw [h.engine]; rfl
  have hbinding' : m.world.engine.bindings[place]? = some b := by rwa [h.engine]
  have hconfig : m.world.engine.config = .default := by rw [h.engine]; rfl
  have hreads := callSlot_reads hp hrunning hbinding' ((h.visible? f).trans hv) patience depth halive
    (hconfig ▸ hn)
  rw [hconfig] at hreads
  exact hreads

/-- The function that adds leaves a scalar in hand, whatever it is passed. -/
theorem callSlot_adds (hv : m.world.heap.payload? f = some (.function (.closure (some 0))))
    (halive : ∀ s ∈ slots ++ receiver.toList, m.world.Alive s) :
    ∃ v es m', callSlot (callNative patience (depth + 1)) (.cell f) receiver slots m = .done () m' ∧
      m.Gains ⟨[.scalar v], [], es⟩ m' ∧
        ∀ place x, place ≠ 0 → es.filterMap (Event.passes place x) = [] := by
  have hnone : ∀ place x, place ≠ 0 →
      (entering m.world f 0 slots receiver).passes place x = none := by
    intro place x hplace
    cases receiver with
    | none => rfl
    | some s => rw [passes_entering, if_neg fun hand => hplace hand.1.symm]
  by_cases hn : slots.length ≤ Config.default.maxArguments
  · obtain ⟨taken, m₁, hgains, hrun⟩ := h.callSlot_runs hp patience depth (b := ⟨none, [], _⟩) rfl hv
      halive hn
    obtain ⟨_, _, m', hanswer, hgains', v, r, rfl⟩ := turns_adding hp [] (slots.map m.world.image)
      ((receiver.map m.world.image).getD .null) m₁ hgains
    refine ⟨v, _, m', hrun.trans hanswer, hgains', fun place x hplace => ?_⟩
    simp [calledWith, hnone place x hplace]
  · have hrunning : m.world.engine.running = true := by rw [h.engine]; rfl
    have hbinding : m.world.engine.bindings[0]? = some ⟨none, [], Stock.addTwo.body⟩ := by
      rw [h.engine]
      rfl
    have hmany : m.world.engine.config.maxArguments < slots.length := by
      rw [h.engine]
      exact Nat.lt_of_not_le hn
    obtain ⟨block, m', hrun, hgains⟩ := callSlot_fails hp hrunning hbinding
      ((h.visible? f).trans hv) patience depth receiver hmany
    refine ⟨_, _, m', hrun, hgains, fun place x hplace => ?_⟩
    simp [hnone place x hplace]

/-- A function that is called on an object gets it for receiver. -/
theorem callSlot_runsOn {properties : Table Slot} {link : Option CellId}
    (hbinding : Program.engine.bindings[place]? = some b)
    (hv : m.world.heap.payload? id = some (.object properties link))
    (hf : m.world.heap.payload? f = some (.function (.closure (some place))))
    (halive : ∀ s ∈ slots, m.world.Alive s) (hn : slots.length ≤ Config.default.maxArguments) :
    ∃ taken m₁, m.Gains ⟨taken, [], [calledWith m.world b slots (some (.cell id)),
        entering m.world f place slots (some (.cell id))]⟩ m₁ ∧
      callSlot (callNative patience (depth + 1)) (.cell f) (some (.cell id)) slots m =
        answering (inside m.world patience depth) m.world.stack.length .default
          (b.body b.captured (slots.map m.world.image) (.handle .object id)) m₁ := by
  have hall : ∀ s ∈ slots ++ (some (Slot.cell id)).toList, m.world.Alive s := by
    intro s hs
    rcases List.mem_append.mp hs with hs | hs
    · exact halive s hs
    · rw [List.mem_singleton.mp hs]
      rintro _ ⟨⟩
      exact Heap.isLive_of_payload? hv
  have himage : m.world.image (.cell id) = .handle .object id :=
    congrArg (Value.handle · id) (World.kindOf_of_visible hp ((h.visible? id).trans hv))
  have hruns := h.callSlot_runs hp patience depth hbinding hf hall hn
  rwa [Option.map_some, Option.getD_some, himage] at hruns

omit h in
/-- What such a call has noted before its code runs. -/
theorem passes_call (hlive : m.world.heap.isLive id = true) (f : CellId) (place : Nat) (b : Binding)
    (slots : List Slot) (place' : Nat) (x : CellId) :
    [calledWith m.world b slots (some (.cell id)),
        entering m.world f place slots (some (.cell id))].filterMap (Event.passes place' x) =
      if place = place' ∧ id = x then [slots.head?.map fun s => (m.world.lend s).slot] else [] := by
  have hslot : (m.world.lend (.cell id)).slot = .cell id :=
    Record.slot_ofHandle (World.isHandle_kindOf hp hlive) id
  have hpasses := passes_entering m.world f place slots (.cell id) place' x
  simp only [hslot, Slot.cell?, Option.some.injEq] at hpasses
  split
  · rw [if_pos ‹_›] at hpasses
    simp [calledWith, List.filterMap_cons, hpasses]
  · rw [if_neg ‹_›] at hpasses
    simp [calledWith, List.filterMap_cons, hpasses]

/-- The constructor gives an empty counter the number that it starts from. -/
theorem callSlot_starts (hv : m.world.heap.payload? id = some (.object [] (some classCell)))
    (hf : m.world.heap.payload? f = some (.function (.closure (some makerPlace))))
    (halive : ∀ s ∈ slots, m.world.Alive s) (hn : slots.length ≤ Config.default.maxArguments) :
    ∃ es m', callSlot (callNative patience (depth + 1)) (.cell f) (some (.cell id)) slots m =
        .done () m' ∧
      (m.put id (counter (startOf slots.head?))).Gains ⟨[.null], [], es⟩ m' ∧
        ∀ place x, es.filterMap (Event.passes place x) =
          if makerPlace = place ∧ id = x then [slots.head?.map fun s => (m.world.lend s).slot]
          else [] := by
  have hbinding : Program.engine.bindings[makerPlace]? =
      some ⟨none, [], (Stock.storingNumber countKey).body⟩ := rfl
  obtain ⟨taken, m₁, hgains, hrun⟩ := h.callSlot_runsOn hp patience depth hbinding hv hf halive hn
  obtain ⟨_, _, m', hanswer, hgains', r, rfl⟩ :=
    puts_starting hp h.free hv [] (slots.map m.world.image) m₁ hgains
  rw [startOf_image] at hgains'
  refine ⟨_, m', hrun.trans hanswer, hgains', fun place x => ?_⟩
  exact passes_call hp (Heap.isLive_of_payload? hv) f makerPlace
    ⟨none, [], (Stock.storingNumber countKey).body⟩ slots place x

/-- The number of a counter goes up by one, and is the answer. -/
theorem callSlot_counts (hv : m.world.heap.payload? id = some (counter n))
    (hf : m.world.heap.payload? f = some (.function (.closure (some counterPlace)))) :
    ∃ es m', callSlot (callNative patience (depth + 1)) (.cell f) (some (.cell id)) [] m = .done () m' ∧
      (m.put id (counter (n + 1.0))).Gains ⟨[.scalar (.number (n + 1.0))], [], es⟩ m' ∧
        ∀ place x, es.filterMap (Event.passes place x) =
          if counterPlace = place ∧ id = x then [none] else [] := by
  have hnone : ∀ s ∈ ([] : List Slot), m.world.Alive s := by
    intro s hs
    cases hs
  have hbinding : Program.engine.bindings[counterPlace]? =
      some ⟨none, [], (Stock.counting countKey).body⟩ := rfl
  obtain ⟨taken, m₁, hgains, hrun⟩ := h.callSlot_runsOn hp patience depth hbinding hv hf hnone
    (Nat.zero_le _)
  obtain ⟨_, _, m', hanswer, hgains', r, rfl⟩ := puts_counting hp h.free hv [] [] m₁ hgains
  refine ⟨_, m', hrun.trans hanswer, hgains', fun place x => ?_⟩
  exact passes_call hp (Heap.isLive_of_payload? hv) f counterPlace
    ⟨none, [], (Stock.counting countKey).body⟩ [] place x

end Machine.Idle
end Enclave
