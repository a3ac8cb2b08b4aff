import Enclave.Proofs.Host.Passed

/-! # What a call of a closure answers

A call fails at the first thing that is wrong with what it passes, and then the closure's code does not
run. Otherwise the code runs, and the call answers with what it ends in. Of all that the call took for
arguments and receiver nothing is in hand when it returns: one entry is, which goes with the answer.
-/
namespace Enclave

open Act Text

/-! ## Ends of host code -/

/-- From code on one machine, host code comes to the code that is left of it on a later one. -/
inductive HostCode.Comes (on : Surroundings) (base : Nat) :
    HostCode → Machine → HostCode → Machine → Prop
  | here (code : HostCode) (m : Machine) : Comes on base code m code m
  | request {r : Request} {next : r.Reply → HostCode} {reply : r.Reply} {m m₁ m₂ : Machine}
      {left : HostCode} (h : perform on base r m = .done reply m₁)
      (rest : Comes on base (next reply) (m₁.noting .resumed) left m₂) :
      Comes on base (.request r next) m left m₂
  | register {name : String} {label : Option String} {captured : List Value} {body : HostFunction}
      {next : Except HostError Unit → HostCode} {reply : Except HostError Unit}
      {m m₁ m₂ : Machine} {left : HostCode}
      (h : registerClosure on base name label captured body m = .done reply m₁)
      (rest : Comes on base (next reply) (m₁.noting .resumed) left m₂) :
      Comes on base (.register name label captured body next) m left m₂
  | createFunction {label : Option String} {captured : List Value} {body : HostFunction}
      {next : View .function → HostCode} {reply : View .function} {m m₁ m₂ : Machine}
      {left : HostCode} (h : createClosure base label captured body m = .done reply m₁)
      (rest : Comes on base (next reply) (m₁.noting .resumed) left m₂) :
      Comes on base (.createFunction label captured body next) m left m₂

/-- A result, a failure or a panic. -/
def HostCode.IsEnd : HostCode → Prop
  | .finish _ | .fail _ | .panic _ => True
  | .request _ _ | .register .. | .createFunction .. => False

/-- A request that was answered leaves the machine in good order. -/
theorem Act.good_answered {α : Type} {t : Limits} {keep : List Slot} {x : Act α}
    {Q : α → List Slot → Prop} {reply : α} {m m₁ : Machine}
    (hx : Spec t False keep (Over 0 keep) x Q) (hg : m.Good t keep) (h : x m = .done reply m₁) :
    (m₁.noting .resumed).Good t keep :=
  (Spec.after hx hg (over_zero.mpr hg.keeps) h).1.plain rfl fun hq => by cases hq

namespace HostCode.Comes

variable {t : Limits} {keep : List Slot} {on : Surroundings} {base : Nat} {code left : HostCode}
  {m m' : Machine}

theorem runCode_eq (h : Comes on base code m left m') :
    runCode on base code m = runCode on base left m' := by
  induction h with
  | here => rfl
  | request h _ ih => exact (bind_done h).trans ih
  | register h _ ih => exact (bind_done h).trans ih
  | createFunction h _ ih => exact (bind_done h).trans ih

/-- Whatever host code does, the machine stays in good order. -/
theorem good (hc : on.call.Safe t) (h : Comes on keep.length code m left m') (hg : m.Good t keep) :
    m'.Good t keep := by
  induction h with
  | here => exact hg
  | request h _ ih => exact ih (good_answered (over_perform hc _) hg h)
  | register h _ ih => exact ih (good_answered (over_registerClosure _ _ _ _) hg h)
  | createFunction h _ ih => exact ih (good_answered (over_createClosure _ _ _) hg h)

end HostCode.Comes

/-! ## The answer -/

/-- A record by which a value goes back, the entry that goes with it, and the block that it hands
over: one reference for a handle, one block for a text, and nothing for anything else. -/
inductive Value.Transfers : Value → Record → Slot → List Nat → Prop where
  | null : Transfers .null .null .null []
  | number (n : Float) : Transfers (.number n) (.ofNumber n) .null []
  | bool (b : Bool) : Transfers (.bool b) (.ofBool b) .null []
  | text (s : String) (b : Nat) :
      Transfers (.string s) (.ofText ⟨untilZero (encode s), some b⟩) .null [b]
  | handle (kind : Kind) (id : CellId) :
      Transfers (.handle kind id) (.ofHandle kind id) (.cell id) []

/-- The machine `m'` is the machine `m` with the answer's entry and block for all that stood above the
part `keep` of the stack; the counts go with the owners. -/
structure Machine.Closes (keep : List Slot) (m : Machine) (e : Slot) (bs : List Nat) (m' : Machine) :
    Prop where
  stack : m'.world.stack = e :: keep
  blocks : m'.world.ledger.outstanding = bs ++ m.world.ledger.outstanding
  counts : m.Follows m'
  rest : { m'.world with
    heap := m.world.heap, ledger := m.world.ledger, stack := m.world.stack } = m.world
  moments : m'.moments = m.moments

namespace Act

variable {t : Limits} {keep xs : List Slot} {on : Surroundings} {m m' : Machine} {v : Value}

/-- How a call of a closure ends when the closure's code has ended. -/
def conclude (base : Nat) (marker : String) : Except String Value → Act Record
  | .ok v => do
    settleTo base
    handBack v
  | .error message => do
    unwind base
    push (.string (marker ++ message))
    handBack (.string (marker ++ message))

theorem settleTo_above {s : Slot} (hs : m.world.stack = s :: (xs ++ keep)) :
    settleTo keep.length m = .done () { m with world :=
      { m.world with stack := s :: keep, heap := m.world.heap.releaseSlots xs } } := by
  have hl : m.world.stack.length - 1 - keep.length = xs.length := by
    rw [hs]
    simp only [List.length_cons, List.length_append]
    omega
  change Outcome.done () { m with world := m.world.settle _ } = _
  rw [hl, World.settle, hs]
  simp

theorem unwind_above (hs : m.world.stack = xs ++ keep) :
    unwind keep.length m = .done () { m with world :=
      { m.world with stack := keep, heap := m.world.heap.releaseSlots xs } } := by
  have hl : m.world.stack.length - keep.length = xs.length := by
    rw [hs, List.length_append]
    omega
  change Outcome.done () { m with world := m.world.unwind keep.length } = _
  rw [World.unwind, hl, World.dropMany, hs]
  simp

/-- A value goes back from the top of the stack. -/
theorem handBack_top (hs : m.world.stack = v.slot :: keep) :
    ∃ r e bs ledger, v.Transfers r e bs ∧
      ledger.outstanding = bs ++ m.world.ledger.outstanding ∧
      handBack v m = .done r { m with world :=
        { m.world with stack := e :: keep, ledger := ledger } } := by
  cases v with
  | scalar c =>
    have hdrop : ∀ w : World, w.stack = .scalar c :: keep →
        (w.drop.push .null) = { w with stack := .null :: keep } := by
      intro w hw
      simp only [World.drop, hw, Heap.releaseSlots_scalar]
      rfl
    cases c with
    | null =>
      refine ⟨_, _, _, _, .null, rfl, ?_⟩
      change Outcome.done _ { m with world := m.world.drop.push .null } = _
      rw [hdrop _ hs]
    | number n =>
      refine ⟨_, _, _, _, .number n, rfl, ?_⟩
      change Outcome.done _ { m with world := m.world.drop.push .null } = _
      rw [hdrop _ hs]
    | bool b =>
      refine ⟨_, _, _, _, .bool b, rfl, ?_⟩
      change Outcome.done _ { m with world := m.world.drop.push .null } = _
      rw [hdrop _ hs]
    | string s =>
      refine ⟨_, _, _, m.world.ledger.alloc, .text s m.world.ledger.next, rfl, ?_⟩
      change Outcome.done _ { m with world := m.world.allocText.drop.push .null } = _
      rw [hdrop m.world.allocText hs]
      rfl
  | handle kind id =>
    refine ⟨_, _, _, _, .handle kind id, rfl, ?_⟩
    change Outcome.done _ m = _
    rw [← show m.world.stack = .cell id :: keep from hs]

theorem shifts_conclude (marker : String) (outcome : Except String Value) :
    Spec t False keep (Over (whenOkay 1 outcome) keep) (conclude keep.length marker outcome)
      fun _ => Over 1 keep := by
  cases outcome with
  | ok v => exact (spec_settleTo keep).bind fun _ => shifts_handBack v keep
  | error message =>
    refine (spec_unwind keep).bind fun _ => Spec.here ?_
    exact (shifts_push _).bind (Nat.le_refl 0) fun _ => shifts_handBack _ keep

/-- A failure goes back as its message behind the marker. -/
theorem conclude_error (hg : m.Good t keep) (marker message : String) :
    ∃ b m', conclude keep.length marker (.error message) m =
        .done (.ofText ⟨untilZero (encode (marker ++ message)), some b⟩) m' ∧
      m.Closes keep .null [b] m' := by
  obtain ⟨xs, hxs⟩ := hg.keeps
  let m₁ : Machine := { m with world := { m.world with
    stack := .scalar (.string (marker ++ message)) :: keep,
    heap := m.world.heap.releaseSlots xs } }
  have hstack : m₁.world.stack = (Value.string (marker ++ message)).slot :: keep := rfl
  obtain ⟨r, e, bs, ledger, htransfers, hledger, hback⟩ := handBack_top hstack
  cases htransfers with
  | text _ b =>
    have hrun : conclude keep.length marker (.error message) m = .done _ _ :=
      (bind_done (unwind_above hxs.symm)).trans ((bind_done rfl).trans hback)
    have hgood := (Spec.after (shifts_conclude marker (.error message)) hg
      (over_zero.mpr hg.keeps) hrun).1
    exact ⟨b, _, hrun, rfl, hledger, hg.follows hgood rfl, rfl, rfl⟩

/-- A result goes back with what stands for it on top. -/
theorem conclude_ok (hg : m.Good t keep) (hs : m.world.stack = v.slot :: (xs ++ keep))
    (marker : String) :
    ∃ r e bs m', conclude keep.length marker (.ok v) m = .done r m' ∧ v.Transfers r e bs ∧
      m.Closes keep e bs m' := by
  let m₁ : Machine := { m with world := { m.world with
    stack := v.slot :: keep, heap := m.world.heap.releaseSlots xs } }
  have hstack : m₁.world.stack = v.slot :: keep := rfl
  obtain ⟨r, e, bs, ledger, htransfers, hledger, hback⟩ := handBack_top hstack
  have hrun : conclude keep.length marker (.ok v) m = .done _ _ :=
    (bind_done (settleTo_above hs)).trans hback
  have hover : Over 1 keep m.world.stack := by
    rw [hs]
    exact ((over_refl keep).append xs).mono (Nat.zero_le _) |>.cons v.slot
  have hgood := (Spec.after (shifts_conclude marker (.ok v)) hg hover hrun).1
  exact ⟨r, e, bs, _, hrun, htransfers, rfl, hledger, hg.follows hgood rfl, rfl, rfl⟩

/-- The call of a closure is the reading of what is passed, the closure's code, and the answer. -/
theorem callClosure_eq {place : Nat} {b : Binding} (hrunning : m.world.engine.running = true)
    (hbinding : m.world.engine.bindings[place]? = some b) (p : Passed) :
    callClosure on (some place) p m =
      (readPassed m.world.engine.config b p >>= fun passed =>
        (match passed with
          | .error message => pure (.error message)
          | .ok (args, this) =>
            runCode on m.world.stack.length (b.body b.captured args this)) >>=
          conclude m.world.stack.length m.world.engine.config.errorMarker) m := by
  have hfound : (if m.world.engine.running then
      (some place).bind (m.world.engine.bindings[·]?) else none) = some b := by
    rw [if_pos hrunning, Option.bind_some, hbinding]
  have hrun : ∀ base, runBinding on base m.world.engine.config b p =
      readPassed m.world.engine.config b p >>= fun passed =>
        match passed with
        | .error message => pure (.error message)
        | .ok (args, this) => runCode on base (b.body b.captured args this) := by
    intro base
    unfold runBinding readPassed
    rw [bind_bind]
    congr 1
    funext collected
    cases collected with
    | error e => rfl
    | ok args =>
      dsimp only
      rw [bind_bind]
      congr 1
      funext copied
      cases copied <;> rfl
  unfold callClosure
  rw [bind_done (world_eq m), hfound]
  dsimp only
  rw [bind_done (height_eq m), hrun, bind_bind]
  rfl

/-- What host code asks for is answered, or the whole machine stops. -/
theorem answered_or_stopped {α : Type} {x : Act α} {Q : α → List Slot → Prop}
    (hx : Spec t False keep (Over 0 keep) x Q) (hg : m.Good t keep) :
    (∃ halt, x m = .stopped halt) ∨
      ∃ reply m₁, x m = .done reply m₁ ∧ (m₁.noting .resumed).Good t keep := by
  cases hr : x m with
  | stopped halt => exact .inl ⟨halt, rfl⟩
  | raised e m₁ =>
    have h := hx m hg (over_zero.mpr hg.keeps)
    rw [hr] at h
    exact h.1.elim
  | done reply m₁ => exact .inr ⟨reply, m₁, rfl, good_answered hx hg hr⟩

/-- Host code stops or comes to an end; it has no faults. -/
theorem comes_to_end (hc : on.call.Safe t) (hg : m.Good t keep) (code : HostCode) :
    (∃ halt, runCode on keep.length code m = .stopped halt) ∨
      ∃ left m', left.IsEnd ∧ HostCode.Comes on keep.length code m left m' := by
  induction code generalizing m with
  | finish v => exact .inr ⟨.finish v, m, trivial, .here _ m⟩
  | fail e => exact .inr ⟨.fail e, m, trivial, .here _ m⟩
  | panic message => exact .inr ⟨.panic message, m, trivial, .here _ m⟩
  | request r next ih =>
    rcases answered_or_stopped (over_perform hc r) hg with ⟨halt, hr⟩ | ⟨reply, m₁, hr, hg₁⟩
    · exact .inl ⟨halt, bind_stopped hr⟩
    · rcases ih reply hg₁ with ⟨halt, hhalt⟩ | ⟨left, m', hend, hcomes⟩
      · exact .inl ⟨halt, (bind_done hr).trans hhalt⟩
      · exact .inr ⟨left, m', hend, .request hr hcomes⟩
  | register name label captured body next _ ih =>
    have hregister : Spec t False keep (Over 0 keep)
        (registerClosure on keep.length name label captured body) _ :=
      over_registerClosure name label captured body
    rcases answered_or_stopped hregister hg with ⟨halt, hr⟩ | ⟨reply, m₁, hr, hg₁⟩
    · exact .inl ⟨halt, bind_stopped hr⟩
    · rcases ih reply hg₁ with ⟨halt, hhalt⟩ | ⟨left, m', hend, hcomes⟩
      · exact .inl ⟨halt, (bind_done hr).trans hhalt⟩
      · exact .inr ⟨left, m', hend, .register hr hcomes⟩
  | createFunction label captured body next _ ih =>
    rcases answered_or_stopped (over_createClosure label captured body) hg with
      ⟨halt, hr⟩ | ⟨reply, m₁, hr, hg₁⟩
    · exact .inl ⟨halt, bind_stopped hr⟩
    · rcases ih reply hg₁ with ⟨halt, hhalt⟩ | ⟨left, m', hend, hcomes⟩
      · exact .inl ⟨halt, (bind_done hr).trans hhalt⟩
      · exact .inr ⟨left, m', hend, .createFunction hr hcomes⟩

/-- A value that code ends with goes back, whether or not something in hand stood for it already. -/
theorem conclude_finish (on : Surroundings) (hg : m.Good t keep) (marker : String) (halive : m.world.Alive v.slot) :
    ∃ r e bs m', (runCode on keep.length (.finish v) >>= conclude keep.length marker) m =
      .done r m' ∧ v.Transfers r e bs ∧ m.Closes keep e bs m' := by
  obtain ⟨xs, hxs⟩ := hg.keeps
  obtain ⟨heap, stack, hsecure, -⟩ := World.secure_alive hxs.symm rfl halive
  let m₁ : Machine := { m with world := m.world.secure keep.length v.slot }
  have hfinish : runCode on keep.length (.finish v) m = .done (.ok v) m₁ := rfl
  have hspec : Spec t False keep (Over 0 keep) (change (·.secure keep.length v.slot)) _ :=
    over_secure v.slot
  obtain ⟨hg₁, hover⟩ := hspec.after hg (over_zero.mpr hg.keeps) (rfl : _ = Outcome.done () m₁)
  have hstack : m₁.world.stack = v.slot :: stack := congrArg World.stack hsecure
  have hkeep : keep <:+ stack := by
    rw [hstack] at hover
    exact (hover : Over (0 + 1) keep (v.slot :: stack)).tail.1
  obtain ⟨ys, rfl⟩ := hkeep
  have hlost : m₁.world.lost = m.world.lost := by rw [show m₁.world = _ from hsecure]
  obtain ⟨r, e, bs, m', hconclude, htransfers, hcloses⟩ := conclude_ok hg₁ hstack marker
  refine ⟨r, e, bs, m', (bind_done hfinish).trans hconclude, htransfers, hcloses.stack, ?_, ?_, ?_,
    hcloses.moments⟩
  · rw [hcloses.blocks]
    exact congrArg (bs ++ ·.ledger.outstanding) hsecure
  · exact (hg.follows hg₁ hlost).trans hcloses.counts
  · have hrest := congrArg (fun w : World => { w with heap := m.world.heap, stack := m.world.stack })
      hcloses.rest
    rw [show m₁.world = _ from hsecure] at hrest
    exact hrest

/-! ## The whole call -/

section Turning

variable {m₀ : Machine} {dropped ss : List Slot} {bs : List Nat} {es : List Event} {place : Nat}
  {b : Binding} {p : Passed}

theorem turns_unwind (hp : m₀.world.heap.Proper) (n : Nat)
    (hn : n = ss.length + m₀.world.stack.length) :
    Turns m₀ ⟨dropped ++ ss, bs, es⟩ (unwind n) fun _ k => k = ⟨ss, bs, es⟩ := by
  apply turns_change
  intro m hm
  have hl : m.world.stack.length - n = dropped.length := by
    rw [hm.stack, hn]
    simp only [List.length_append]
    omega
  rw [World.unwind, hl]
  exact hm.dropMany hp

/-- The record of a failure's message behind the marker, in a block. -/
def marked (config : Config) (message : String) (block : Nat) : Record :=
  .ofText ⟨untilZero (encode (config.errorMarker ++ message)), some block⟩

/-- A failure drops all that was in hand above the height of the call. -/
theorem turns_concludeError (hp : m₀.world.heap.Proper) (config : Config) (message : String)
    (n : Nat) (hn : n = ss.length + m₀.world.stack.length) :
    Turns m₀ ⟨dropped ++ ss, bs, es⟩ (conclude n config.errorMarker (.error message)) fun r k =>
      ∃ block, r = marked config message block ∧ k = ⟨.null :: ss, block :: bs, es⟩ := by
  refine (turns_unwind hp n hn).step ((turns_push _).step ?_)
  have hrecord : Turns m₀ ⟨.scalar (.string (config.errorMarker ++ message)) :: ss, bs, es⟩
      (resultRecord (.string (config.errorMarker ++ message))) fun r k =>
        ∃ block, r = marked config message block ∧
          k = ⟨.scalar (.string (config.errorMarker ++ message)) :: ss, block :: bs, es⟩ := by
    apply (turns_allocText _).map
    rintro _ k ⟨block, rfl, rfl⟩
    exact ⟨block, rfl, rfl⟩
  apply hrecord.bind
  rintro _ k ⟨block, rfl, rfl⟩
  exact (turns_clearScalar hp _).step (turns_pure _ ⟨block, rfl, rfl⟩)

/-- A call with something wrong in it answers with the first such thing, and nothing has happened. -/
theorem turns_callFails (on : Surroundings) (hp : m₀.world.heap.Proper)
    (hrunning : m₀.world.engine.running = true)
    (hbinding : m₀.world.engine.bindings[place]? = some b) {e : ClosureError}
    (he : p.Fails m₀.world.engine.config.maxArguments e) :
    Turns m₀ ⟨ss, bs, es⟩ (callClosure on (some place) p) fun r k =>
      ∃ block, r = marked m₀.world.engine.config e.message block ∧
        k = ⟨.null :: ss, block :: bs, es⟩ := by
  intro m hm
  have hheight : m.world.stack.length = ss.length + m₀.world.stack.length := by
    rw [hm.stack, List.length_append]
  rw [callClosure_eq (hm.engine ▸ hrunning) (hm.engine ▸ hbinding), hheight, hm.engine]
  refine Turns.bind (turns_readPassed _ b p) (fun passed k h => ?_) m hm
  rcases h with ⟨args, this, hreads, -, -⟩ | ⟨e', taken, he', rfl, rfl⟩
  · exact absurd he hreads.not_fails
  · rw [he.eq he']
    exact turns_concludeError hp _ _ _ rfl

/-- A call with nothing wrong in it runs the closure's code on what was passed. -/
theorem callClosure_reads (on : Surroundings) (hrunning : m₀.world.engine.running = true)
    (hbinding : m₀.world.engine.bindings[place]? = some b) {args : List Value} {this : Value}
    (hreads : p.Reads m₀.world.engine.config.maxArguments args this)
    (hm : m₀.Gains ⟨ss, bs, es⟩ m) :
    ∃ m₁, readPassed m₀.world.engine.config b p m = .done (.ok (args, this)) m₁ ∧
      m₀.Gains ⟨p.taken m₀.world args this ++ ss, bs, .called b.label args this :: es⟩ m₁ ∧
      callClosure on (some place) p m =
        (runCode on m.world.stack.length (b.body b.captured args this) >>=
          conclude m.world.stack.length m₀.world.engine.config.errorMarker) m₁ := by
  obtain ⟨_, _, m₁, hread, hgains, h⟩ := turns_readPassed m₀.world.engine.config b p m hm
  rcases h with ⟨args', this', hreads', rfl, rfl⟩ | ⟨e, taken, he, -, -⟩
  · obtain ⟨rfl, rfl⟩ := hreads.eq hreads'
    refine ⟨m₁, hread, hgains, ?_⟩
    rw [callClosure_eq (hm.engine ▸ hrunning) (hm.engine ▸ hbinding), hm.engine, bind_done hread]
  · exact absurd he hreads.not_fails

end Turning

end Act

/-- The message of code that ends in a failure or a panic. -/
def HostCode.failure? : HostCode → Option String
  | .fail e => some e.message
  | .panic message => some (message.getD unknownPanic)
  | _ => none

namespace Act

variable {t : Limits} {keep : List Slot} {on : Surroundings} {m : Machine} {place : Nat}
  {b : Binding}

/-- A call of a closure answers with the first thing that is wrong with what it passes, and then all
is as it was but for the answer. If nothing is wrong, all that is passed is taken, once, and the code
runs on it until it stops the machine or ends. If it ends with a value, that value goes back, and if
it ends with a failure or a panic, the message does; of what was taken nothing is left in hand. -/
theorem callClosure_answers (hc : on.call.Safe t) (hg : m.Good t keep)
    (hrunning : m.world.engine.running = true)
    (hbinding : m.world.engine.bindings[place]? = some b) (p : Passed) :
    (∃ e, p.Fails m.world.engine.config.maxArguments e ∧
      ∃ block m', callClosure on (some place) p m =
          .done (marked m.world.engine.config e.message block) m' ∧
        m.Gains ⟨[.null], [block], []⟩ m') ∨
    ∃ args this, p.Reads m.world.engine.config.maxArguments args this ∧
      ∃ m₁, m.Gains ⟨p.taken m.world args this, [], [.called b.label args this]⟩ m₁ ∧
        ((∃ halt, callClosure on (some place) p m = .stopped halt) ∨
          ∃ left m₂, left.IsEnd ∧
            HostCode.Comes on m.world.stack.length (b.body b.captured args this) m₁ left m₂) ∧
        ∀ left m₂,
          HostCode.Comes on m.world.stack.length (b.body b.captured args this) m₁ left m₂ →
            (∀ v, left = .finish v → m₂.world.Alive v.slot →
              ∃ r e bs m', callClosure on (some place) p m = .done r m' ∧ v.Transfers r e bs ∧
                m₂.Closes m.world.stack e bs m') ∧
            ∀ message, left.failure? = some message →
              ∃ block m', callClosure on (some place) p m =
                  .done (marked m.world.engine.config message block) m' ∧
                m₂.Closes m.world.stack .null [block] m' := by
  have hp := hg.sound.counted.proper
  obtain ⟨_, _, _, -, -, h⟩ :=
    turns_readPassed m.world.engine.config b p m (Machine.Gains.refl m)
  rcases h with ⟨args, this, hreads, -, -⟩ | ⟨e, taken, he, -, -⟩
  · right
    obtain ⟨m₁, hread, hgains, hcall⟩ :=
      callClosure_reads on hrunning hbinding hreads (Machine.Gains.refl m)
    rw [List.append_nil] at hgains
    have hg₁ : m₁.Good t m.world.stack :=
      (Spec.after (shifts_readPassed _ b p m.world.stack)
        (hg.raise hg.keeps (List.suffix_refl _)) (over_refl _) hread).1
    refine ⟨args, this, hreads, m₁, hgains, ?_, fun left m₂ hcomes => ?_⟩
    · rcases comes_to_end hc hg₁ (b.body b.captured args this) with
        ⟨halt, hhalt⟩ | ⟨left, m₂, hend, hcomes⟩
      · exact .inl ⟨halt, hcall.trans (bind_stopped hhalt)⟩
      · exact .inr ⟨left, m₂, hend, hcomes⟩
    · have hg₂ := hcomes.good hc hg₁
      have hcode := hcomes.runCode_eq
      constructor
      · rintro v rfl halive
        obtain ⟨r, e, bs, m', hconclude, htransfers, hcloses⟩ :=
          conclude_finish on hg₂ m.world.engine.config.errorMarker halive
        refine ⟨r, e, bs, m', ?_, htransfers, hcloses⟩
        rw [hcall, ← hconclude]
        exact bind_congr hcode
      · intro message hmessage
        have hend : runCode on m.world.stack.length left m₂ = .done (.error message) m₂ := by
          cases left <;> cases hmessage <;> rfl
        obtain ⟨block, m', hconclude, hcloses⟩ :=
          conclude_error hg₂ m.world.engine.config.errorMarker message
        refine ⟨block, m', ?_, hcloses⟩
        rw [hcall, bind_done (hcode.trans hend)]
        exact hconclude
  · left
    obtain ⟨_, _, m', hrun, hgains, block, rfl, rfl⟩ :=
      (turns_callFails on hp hrunning hbinding he).run
    exact ⟨e, he, block, m', hrun, hgains⟩

/-- The second of two arguments is a handle to nothing. The first, an object, is given back. -/
theorem callClosure_answers_missingHandle :
    let w := ((World.initial .default).bind none [] Stock.echo).install (.object [] none)
    let m : Machine := ⟨w, []⟩
    let p : Passed :=
      ⟨2, some [.ofHandle .object 0, { Record.null with code := Kind.object.code }], none⟩
    m.Good ⟨0, False, [], True⟩ [] ∧
      ∃ block m', callClosure ⟨0, callNative 0 0, 0⟩ (some 0) p m =
          .done (marked .default "argument 1: malformed value: null handle payload" block) m' ∧
        m.Gains ⟨[.null], [block], []⟩ m' := by
  intro w m p
  let t : Limits := ⟨0, False, [], True⟩
  have hmove : World.Move t (World.initial .default) w :=
    (World.move_bind t _ none [] Stock.echo).trans (World.move_installEmpty t _ _ rfl)
  have hg : m.Good t [] :=
    (Machine.good_initial .default False True).move hmove List.nil_suffix
  have hfails : p.Fails 256 (.argument 1 "malformed value: null handle payload") := by
    have hcounts : p.Counts 256 := ⟨by decide, by decide, fun h => by cases h⟩
    refine .argument (e := .malformed .missingHandle) hcounts rfl rfl ?_
    intro j a hj ha
    obtain rfl : j = 0 := by omega
    cases ha
    exact ⟨.handle .object 0, rfl⟩
  let on : Surroundings := ⟨0, callNative 0 0, 0⟩
  have hsafe : on.call.Safe t := safe_callNative t 0 0
  have hbinding : m.world.engine.bindings[0]? = some ⟨none, [], Stock.echo⟩ := rfl
  rcases callClosure_answers hsafe hg rfl hbinding p with ⟨e, he, block, m', hrun, hgains⟩ | ⟨args, this, hreads, -⟩
  · obtain rfl := he.eq hfails
    exact ⟨hg, block, m', hrun, hgains⟩
  · exact absurd hfails hreads.not_fails

end Act
end Enclave
