import Enclave.Proofs.Host.Closures
import Enclave.Proofs.Script.Instances

/-! # Calls of closures, from wherever they come

A script calls a function by an expression, as a method or as a constructor, and a host calls it through
a view, or at the entry point with records that may be malformed. What a closure is passed can be read
in every case, so its code runs, once, unless the arguments are too many.
-/
namespace Enclave

open Act Text

/-- The ways to call a function. -/
inductive Invocation where
  | plain (callee : Expr) (args : Items)
  | method (target : Expr) (key : MemberKey) (args : Items)
  | construct (callee : Expr) (args : Items)
  | view (f : View .function) (args : List Value) (receiver : Value)
  | entry (handle : Option CellId) (argc : Int) (argv : Option (List Record))
      (receiver : Option Record)

namespace Invocation

/-- What the caller is left with: a slot on the stack, a value, or a record that is given out. -/
inductive Answer where
  | slot (s : Slot)
  | value (v : Except HostError Value)
  | given (g : Given)

/-- The whole of a call. -/
def act (on : Surroundings) : Invocation → Act Answer
  | plain callee args => do
    (Expr.call callee args).eval on
    .slot <$> top
  | method target key args => do
    (Expr.call (.member target key) args).eval on
    .slot <$> top
  | construct callee args => do
    (Expr.construct callee args).eval on
    .slot <$> top
  | view f args receiver => .value <$> callView on f args receiver
  | entry handle argc argv receiver => .given <$> callFunction on.call true handle argc argv receiver

/-- A call comes to the function cell `id` with a receiver and with slots for its arguments. For a
script these are what its parts evaluate to, a constructor's receiver being the new instance; for a
host they are what the runtime makes of its records, whatever is wrong with these. -/
inductive Arrives (on : Surroundings) :
    Invocation → Machine → CellId → List Slot → Option Slot → Machine → Prop
  | plain {callee : Expr} {args : Items} {m m₁ m₂ : Machine} {id : CellId}
      (hplain : ∀ target key, callee ≠ .member target key)
      (hargs : args.evalArgs on m = .done () m₁) (hcallee : callee.eval on m₁ = .done () m₂)
      (htop : m₂.world.top = .cell id) :
      Arrives on (.plain callee args) m id (m₁.world.newest args.length) none m₂
  | method {target : Expr} {key : MemberKey} {args : Items} {m m₁ m₂ m₃ m₄ : Machine} {id : CellId}
      {receiver : Slot} (hargs : args.evalArgs on m = .done () m₁)
      (htarget : target.eval on m₁ = .done () m₂) (hkey : key.eval on m₂ = .done () m₃)
      (hreceiver : m₃.world.stack.getD 1 .null = receiver)
      (hget : getMember receiver m₃.world.top m₃ = .done () m₄) (htop : m₄.world.top = .cell id) :
      Arrives on (.method target key args) m id (m₁.world.newest args.length) (some receiver) m₄
  | construct {callee : Expr} {args : Items} {m m₁ m₂ : Machine} {classId id : CellId}
      {name : String} {methods : Table Slot} (hcallee : callee.eval on m = .done () m₁)
      (hclass : m₁.world.top = .cell classId) (hargs : args.evalArgs on m₁ = .done () m₂)
      (hv : m₂.world.visible? classId = some (.classDesc name methods))
      (hfound : methods.get? constructorName = some (.cell id)) :
      Arrives on (.construct callee args) m id (m₂.world.newest args.length)
        (some (.cell m₂.world.heap.next))
        { m₂ with world := (m₂.world.share (.cell id)).allocInstance classId }
  | entry {handle : Option CellId} {argc : Int} {argv : Option (List Record)}
      {receiver : Option Record} {m m₁ m₂ : Machine} {id : CellId} {slots receivers : List Slot}
      (hcell : m.world.cellOf? .function handle = some id) (hcount : 0 ≤ argc)
      (harray : argv = none → argc = 0)
      (hargs : borrowAll ((argv.getD []).take argc.toNat) m = .done slots m₁)
      (hreceiver : borrowAll receiver.toList m₁ = .done receivers m₂) :
      Arrives on (.entry handle argc argv receiver) m id
        (((argv.getD []).take argc.toNat).map fun r => m.world.found r.slot)
        (receiver.map fun r => m.world.found r.slot)
        { m₂ with world := m₂.world.share (.cell id) }
  | view {values : List Value} {this : Value} {records : List Record} {receiver : Option Record}
      {id : CellId} {slots : List Slot} {slot : Option Slot} {m m₁ : Machine}
      (hlend : values.mapM Value.lend = .ok records) (hcount : records.length ≤ maxCount)
      (hthis : (if this.isNull then .ok none else this.lend.map some) = .ok receiver)
      (h : Arrives on (.entry (some id) records.length (some records) receiver) m id slots slot m₁) :
      Arrives on (.view ⟨some id⟩ values this) m id slots slot m₁

/-- What the entry point gives back of what stands above the height `base`. -/
def giveBack (base : Nat) : Act Given := do
  let given ← giveTop
  settleTo base
  pure given

/-- What is left of a call that began at the height `base` when the function has returned. -/
def finish (base : Nat) : Invocation → Act Answer
  | plain _ args => do
    settle (args.length + 1)
    .slot <$> top
  | method _ _ args => do
    settle (args.length + 3)
    .slot <$> top
  | construct _ args => do
    drop
    settle 1
    settle (args.length + 1)
    .slot <$> top
  | view _ _ _ => .value <$> (giveBack base >>= accept .functionCall)
  | entry _ _ _ _ => .given <$> giveBack base

end Invocation

namespace Invocation

variable {t : Limits} {keep : List Slot} {on : Surroundings} {way : Invocation} {m m₁ : Machine}
  {id : CellId} {slots : List Slot} {receiver : Option Slot}

theorem silent_finish (base : Nat) (way : Invocation) : Silent (way.finish base) := by
  have hslot : Silent (Answer.slot <$> top) := silent_top.map _
  have hgiven : Silent (giveBack base) :=
    silent_giveTop.bind fun given => (silent_change _).bind fun _ => silent_pure given
  cases way with
  | plain callee args | method target key args => exact (silent_change _).bind fun _ => hslot
  | construct callee args =>
    exact (silent_change _).bind fun _ => (silent_change _).bind fun _ =>
      (silent_change _).bind fun _ => hslot
  | view f args receiver => exact (hgiven.bind fun given => silent_accept _ given).map _
  | entry handle argc argv receiver => exact hgiven.map _

/-! ## What stands ready -/

/-- What a call borrows are the slots that its records are taken for. -/
theorem borrowed {records : List Record} (hrun : borrowAll records m = .done slots m₁) {m₀ : Machine}
    {g : Gain} (hm : m₀.Gains g m) :
    slots = records.map fun r => m₀.world.found r.slot := by
  obtain ⟨_, _, _, hrun', -, hslots, -⟩ := turns_borrowFound records m hm
  rw [hrun] at hrun'
  cases hrun'
  exact hslots

/-- A call at the entry point has its function on top of what it borrows. -/
theorem top_entry {handle : Option CellId} {records records' : List Record} {m₂ : Machine}
    {receivers : List Slot} (hcell : m.world.cellOf? .function handle = some id)
    (hargs : borrowAll records m = .done slots m₁)
    (hreceiver : borrowAll records' m₁ = .done receivers m₂) :
    (m₂.world.share (.cell id)).top = .cell id := by
  have hgains := gains_borrowAll (gains_borrowAll (Machine.Gains.refl m) hargs) hreceiver
  have halive : m₂.world.Alive (.cell id) := by
    rintro _ ⟨⟩
    rw [hgains.heap.isLive]
    exact Heap.isLive_of_kind? (World.kind?_of_cellOf? hcell)
  exact World.top_of_stack (congrArg World.stack (World.share_alive halive))

/-- When a call comes to its function, the stack holds whatever it lends. -/
theorem Arrives.ready (hc : on.call.Safe t) (hg : m.Good t m.world.stack)
    (h : Arrives on way m id slots receiver m₁) :
    m₁.Good t m₁.world.stack ∧
      Covers m₁.world.stack ([.cell id] ++ receiver.toList ++ slots) := by
  induction h with
  | @plain callee args m m₁ m₂ id hplain hargs hcallee htop =>
    obtain ⟨hg₁, -⟩ := (args.shifts_evalArgs hc).after hg hargs
    obtain ⟨hg₂, hover₂⟩ := (callee.shifts_eval hc).after hg₁ hcallee
    have hcell := htop ▸ covers_top m₂.world
    exact ⟨hg₂, (hcell.append fun _ h => by cases h).append ((covers_newest _ _).mono hover₂)⟩
  | @method target key args m m₁ m₂ m₃ m₄ id receiver hargs htarget hkey hreceiver hget htop =>
    obtain ⟨hg₁, -⟩ := (args.shifts_evalArgs hc).after hg hargs
    obtain ⟨hg₂, hover₂⟩ := (target.shifts_eval hc).after hg₁ htarget
    obtain ⟨hg₃, hover₃⟩ := (key.shifts_eval hc).after hg₂ hkey
    obtain ⟨hg₄, hover₄⟩ := (shifts_getMember receiver m₃.world.top).after hg₃ hget
    have hcell := htop ▸ covers_top m₄.world
    have hthis : Covers m₄.world.stack (some receiver).toList :=
      (hreceiver ▸ covers_getD m₃.world 1).mono hover₄
    have hslots := (covers_newest m₁.world args.length).mono (hover₂.trans (hover₃.trans hover₄))
    exact ⟨hg₄, (hcell.append hthis).append hslots⟩
  | @construct callee args m m₁ m₂ classId id name methods hcallee hclass hargs hv hfound =>
    obtain ⟨hg₁, -⟩ := (callee.shifts_eval hc).after hg hcallee
    obtain ⟨hg₂, -⟩ := (args.shifts_evalArgs hc).after hg₁ hargs
    have halive := World.alive_of_method hg₂.sound.counted.proper hv hfound
    have hstack := World.stack_construct halive classId
    have hmove := (World.move_share t m₂.world (.cell id)).trans
      (World.move_allocInstance t (m₂.world.share (.cell id)) classId)
    have hover : m₂.world.stack <:+ ((m₂.world.share (.cell id)).allocInstance classId).stack := by
      rw [hstack]
      exact (List.suffix_cons _ _).trans (List.suffix_cons _ _)
    refine ⟨(hg₂.move hmove hover).raise hover (List.suffix_refl _), ?_⟩
    have hslots := (covers_newest m₂.world args.length).mono hover
    refine Covers.append (fun x hx => ?_) hslots
    change _ ∈ ((m₂.world.share (.cell id)).allocInstance classId).stack
    rw [hstack]
    simp only [Option.toList_some, List.cons_append, List.nil_append, List.mem_cons, List.not_mem_nil,
      or_false] at hx ⊢
    rcases hx with hx | hx
    · exact .inr (.inl hx)
    · exact .inl hx
  | @entry handle argc argv receiver m m₁ m₂ id slots receivers hcell hcount harray hargs hreceiver =>
    obtain ⟨hg₁, -, hslots⟩ := good_borrowAll hg hargs
    obtain ⟨hg₂, hover₂, hreceivers⟩ := good_borrowAll hg₁ hreceiver
    have hgains := gains_borrowAll (Machine.Gains.refl m) hargs
    have hshare : Shifts t False 0 (share (.cell id)) fun _ => 1 := shifts_share _
    obtain ⟨hg₃, hover₃⟩ := hshare.after hg₂ rfl
    rw [borrowed hargs (Machine.Gains.refl m)] at hslots
    rw [borrowed hreceiver hgains] at hreceivers
    have hthis : receiver.toList.map (fun r => m.world.found r.slot) =
        (receiver.map fun r => m.world.found r.slot).toList := by cases receiver <;> rfl
    rw [hthis] at hreceivers
    have htop := top_entry hcell hargs hreceiver
    have hself := htop ▸ covers_top (m₂.world.share (.cell id))
    exact ⟨hg₃, (hself.append (hreceivers.mono hover₃)).append
      (hslots.mono (hover₂.trans hover₃))⟩
  | view hlend hcount hthis h ih => exact ih hg

/-- A call at the entry point comes to its function whatever the records are. -/
theorem arrives_entry (on : Surroundings) {handle : Option CellId} {argc : Int}
    {argv : Option (List Record)} (this : Option Record)
    (hcell : m.world.cellOf? .function handle = some id) (hcount : 0 ≤ argc)
    (harray : argv = none → argc = 0) :
    ∃ taken m₁, m.Gains ⟨taken, [], []⟩ m₁ ∧
      Arrives on (.entry handle argc argv this) m id
        (((argv.getD []).take argc.toNat).map fun r => m.world.found r.slot)
        (this.map fun r => m.world.found r.slot) m₁ := by
  obtain ⟨_, _, m₁, hargs, hgains₁, rfl, rfl⟩ :=
    (turns_borrowFound ((argv.getD []).take argc.toNat)) m (Machine.Gains.refl m)
  obtain ⟨_, _, m₂, hreceiver, hgains₂, rfl, rfl⟩ := turns_borrowFound this.toList m₁ hgains₁
  exact ⟨_, _, hgains₂.share (.cell id), .entry hcell hcount harray hargs hreceiver⟩

/-- What the stack holds is alive. -/
theorem alive_of_covers (hg : m.Good t keep) (h : Covers m.world.stack slots) :
    ∀ s ∈ slots, m.world.Alive s :=
  fun _ hs id hid => World.isLive_of_stack hg.sound.counted (h id (hid ▸ hs))

/-! ## What follows the call -/

/-- The act `x` from `m` does what `y` does from `m₁`, and then `k`, as far as `y` has no faults. -/
structure Continues {α β : Type} (x : Act α) (m : Machine) (y : Act β) (m₁ : Machine)
    (k : β → Act α) : Prop where
  done : ∀ b m₂, y m₁ = .done b m₂ → x m = k b m₂
  stopped : ∀ halt, y m₁ = .stopped halt → x m = .stopped halt

section Continues

variable {α β γ : Type} {x : Act α} {y : Act β} {k : β → Act α} {f : α → Act γ}

theorem Continues.of_eq (h : x m = (y >>= k) m₁) : Continues x m y m₁ k :=
  ⟨fun _ _ hy => h.trans (bind_done hy), fun _ hy => h.trans (bind_stopped hy)⟩

theorem Continues.bind (h : Continues x m y m₁ k) (f : α → Act γ) :
    Continues (x >>= f) m y m₁ fun b => k b >>= f :=
  ⟨fun b m₂ hy => bind_congr (h.done b m₂ hy), fun halt hy => bind_stopped (h.stopped halt hy)⟩

/-- A fault would be made a result; there is none. -/
theorem Continues.recover {k : Except Fault β → Act α} (h : Continues x m (recover y) m₁ k) :
    Continues x m y m₁ fun b => k (.ok b) := by
  constructor
  · intro b m₂ hy
    apply h.done
    rw [recover_eq, hy]
  · intro halt hy
    apply h.stopped
    rw [recover_eq, hy]

end Continues

/-- What the entry point does when the function has ended. -/
def afterCall (base : Nat) : Except Fault Unit → Act Given
  | .ok () => giveBack base
  | .error _ => do
    unwind base
    giveNothing false

/-- At the entry point a call comes to its function if the count and the array are in order. -/
theorem Arrives.continues_entry {handle : Option CellId} {argc : Int} {argv : Option (List Record)}
    {this : Option Record} (h : Arrives on (.entry handle argc argv this) m id slots receiver m₁) :
    Continues (callFunction on.call true handle argc argv this) m
      (callSlot on.call (.cell id) receiver slots) m₁ fun _ => giveBack m.world.stack.length := by
  cases h with
  | @entry _ _ _ _ _ _ m₂ _ args receivers hcell hcount harray hargs hreceiver =>
    have hgains := gains_borrowAll (Machine.Gains.refl m) hargs
    have hslots := borrowed hargs (Machine.Gains.refl m)
    have hreceivers := borrowed hreceiver hgains
    have hhead : receivers.head? = this.map fun r => m.world.found r.slot := by
      rw [hreceivers]
      cases this <;> rfl
    have hcheck : (!true || decide (argc < 0) || argc != 0 && argv.isNone) = false := by
      cases argv with
      | none => simp [harray rfl]
      | some records => simp [hcount]
    have hshare : share (.cell id) m₂ = .done () { m₂ with world := m₂.world.share (.cell id) } := rfl
    have htop := top_entry hcell hargs hreceiver
    refine (Continues.of_eq (k := afterCall m.world.stack.length) ?_).recover
    unfold callFunction
    rw [bind_done (world_eq m), hcell]
    dsimp only
    rw [if_neg (by rw [hcheck]; decide), bind_done (height_eq m), bind_done hargs,
      bind_done hreceiver, bind_done hshare, bind_done (top_eq _), htop, hhead, hslots]
    rfl

/-- A call comes to its function and ends as its form says. -/
theorem Arrives.continues (hc : on.call.Safe t) (hg : m.Good t m.world.stack) {f : NativeFunction}
    (h : Arrives on way m id slots receiver m₁) (hv : m₁.world.visible? id = some (.function f)) :
    Continues (way.act on) m (callSlot on.call (.cell id) receiver slots) m₁ fun _ =>
      way.finish m.world.stack.length := by
  cases h with
  | @plain callee args _ m₂ _ _ hplain hargs hcallee htop =>
    refine (Continues.of_eq (k := fun _ => settle (args.length + 1)) ?_).bind _
    rw [Expr.eval, bind_done hargs, bind_done (newest_eq _ _), bind_done hcallee,
      bind_done (top_eq _), htop]
    exact hplain
  | @method target key args _ m₂ m₃ m₄ _ _ receiver hargs htarget hkey hreceiver hget htop =>
    refine (Continues.of_eq (k := fun _ => settle (args.length + 3)) ?_).bind _
    have hpeek : peek 1 m₄ = .done receiver m₄ := congrArg (Outcome.done · m₄) hreceiver
    rw [Expr.eval, bind_done hargs, bind_done (newest_eq _ _), bind_done htarget, bind_done hkey,
      bind_done hpeek, bind_done (top_eq _), bind_done hget, bind_done (top_eq _), htop,
      bind_done (nativeOf_eq hv)]
  | @construct callee args _ m₂ m₃ classId _ name methods hcallee hclass hargs hvisible hfound =>
    obtain ⟨hg₂, -⟩ := (callee.shifts_eval hc).after hg hcallee
    obtain ⟨hg₃, -⟩ := (args.shifts_evalArgs hc).after hg₂ hargs
    have hconstruct := construct_eq on.call (m₃.world.newest args.length)
      hg₃.sound.counted.proper hvisible hfound
    have hcall := (Continues.of_eq (x := (Expr.construct callee args).eval on) (m := m)
      (y := callSlot on.call (.cell id) (some (.cell m₃.world.heap.next))
        (m₃.world.newest args.length))
      (k := fun _ => (do drop; settle 1) >>= fun _ => settle (args.length + 1)) (by
        rw [Expr.eval, bind_done hcallee, bind_done (top_eq _), bind_done hargs,
          bind_done (newest_eq _ _), hclass, bind_congr hconstruct, bind_bind])).bind
      fun _ => Answer.slot <$> top
    simp only [bind_bind] at hcall
    exact hcall
  | entry hcell hcount harray hargs hreceiver =>
    exact (Arrives.entry hcell hcount harray hargs hreceiver).continues_entry.bind _
  | @view values this records receiver id _ _ _ _ hlend hcount hthis h =>
    have hcall := (h.continues_entry.bind (accept .functionCall)).bind
      fun v => pure (Answer.value v)
    have hview : callView on ⟨some id⟩ values this =
        callFunction on.call true (some id) records.length (some records) receiver >>=
          accept .functionCall := by
      change whenOk (values.mapM Value.lend) _ = _
      rw [hlend]
      change (if maxCount < records.length then _ else whenOk _ _) = _
      rw [if_neg (by omega), hthis]
      rfl
    rw [← hview] at hcall
    exact hcall

/-! ## What the caller is left with -/

/-- With too many arguments the caller gets the text that says so; what a constructor returns is
dropped. -/
def Refused (way : Invocation) (receiver : Option Slot) (text : String) (answer : Answer) : Prop :=
  match way with
  | plain _ _ | method _ _ _ => answer = .slot (.scalar (.string text))
  | construct _ _ => answer = .slot (receiver.getD .null)
  | view _ _ _ => answer = .value (.ok (.string text))
  | entry _ _ _ _ =>
    ∃ block, answer = .given ⟨true, .ofText ⟨untilZero (encode text), some block⟩⟩

theorem top_settle {w : World} {s : Slot} {rest : List Slot} (hs : w.stack = s :: rest) (n : Nat) :
    (w.settle n).top = s := by
  rw [World.settle, hs]
  rfl

/-- A text that is given out is read by whoever takes it over. -/
theorem accept_text (text : String) (block : Nat) (operation : Operation) (m : Machine) :
    ∃ m', accept operation ⟨true, .ofText ⟨untilZero (encode text), some block⟩⟩ m =
      .done (.ok (.string (cut text))) m' := by
  have hplain : untilZero (untilZero (encode text)) = encode (cut text) := by
    rw [untilZero_encode, untilZero_encode, cut_cut]
  have hread : Value.ofRecord (.ofText ⟨untilZero (encode text), some block⟩) =
      .ok (.string (cut text)) := Value.ofRecord_ofText (by rw [hplain, decode?_encode])
  unfold accept takeOver
  rw [hread]
  exact ⟨_, rfl⟩

theorem giveBack_text {text : String} {rest : List Slot}
    (hs : m.world.stack = .scalar (.string text) :: rest) (base : Nat) :
    ∃ block m', giveBack base m =
      .done ⟨true, .ofText ⟨untilZero (encode text), some block⟩⟩ m' := by
  have htop : m.world.top = .scalar (.string text) := World.top_of_stack hs
  unfold giveBack giveTop
  rw [bind_bind, bind_done (top_eq m), htop]
  exact ⟨_, _, rfl⟩

/-- A text that a function returns is what the caller gets. -/
theorem Arrives.refused (hc : on.call.Safe t) (hg : m.Good t m.world.stack)
    (h : Arrives on way m id slots receiver m₁) {text : String} {m₂ m' : Machine}
    (hs : m₂.world.stack = .scalar (.string text) :: m₁.world.stack) (htext : cut text = text)
    {base : Nat} {answer : Answer} (hrun : way.finish base m₂ = .done answer m') :
    way.Refused receiver text answer := by
  cases h with
  | plain | method =>
    cases hrun
    exact congrArg Answer.slot (top_settle hs _)
  | @construct callee args _ m₃ m₄ classId _ name methods hcallee hclass hargs hv hfound =>
    obtain ⟨hg₃, -⟩ := (callee.shifts_eval hc).after hg hcallee
    obtain ⟨hg₄, -⟩ := (args.shifts_evalArgs hc).after hg₃ hargs
    have halive := World.alive_of_method hg₄.sound.counted.proper hv hfound
    have hmade : m₂.world.drop.stack = .cell m₄.world.heap.next :: .cell id :: m₄.world.stack := by
      rw [World.drop, hs]
      exact World.stack_construct halive classId
    have hsettled : (m₂.world.drop.settle 1).stack = .cell m₄.world.heap.next :: m₄.world.stack := by
      rw [World.settle, hmade]
      rfl
    cases hrun
    exact congrArg Answer.slot (top_settle hsettled _)
  | entry =>
    obtain ⟨block, m₃, hgive⟩ := giveBack_text hs base
    have hfinish := hrun.symm.trans (bind_done hgive)
    cases hfinish
    exact ⟨block, rfl⟩
  | view =>
    obtain ⟨block, m₃, hgive⟩ := giveBack_text hs base
    obtain ⟨m₄, haccept⟩ := accept_text text block .functionCall m₃
    have hfinish := hrun.symm.trans (bind_done ((bind_done hgive).trans haccept))
    cases hfinish
    exact congrArg (fun text => Answer.value (.ok (.string text))) htext

end Invocation

/-- Up to the machine `m'` the machine `m` has noted events, newest first. -/
def Machine.Notes (m : Machine) (es : List Event) (m' : Machine) : Prop :=
  ∃ new, m'.moments = new ++ m.moments ∧ new.map (·.event) = es

namespace Invocation

variable {t : Limits} {keep : List Slot} {on : Surroundings} {way : Invocation} {m m₁ : Machine}
  {id : CellId} {slots : List Slot} {receiver : Option Slot} {patience depth place : Nat}
  {b : Binding}

/-- Wherever a call of a closure comes from, and whatever is wrong with the records that came in, what
the closure is passed can be read. If there are not too many arguments the closure's code runs on
their images, and between its end and the end of the call nothing is noted but the return. If there
are too many it does not run, and the caller is left with the text that says so. -/
theorem closure_runs_once (hg : m.Good t keep) (hcall : on.call = callNative patience (depth + 1))
    (h : Arrives on way m id slots receiver m₁) (hrunning : m₁.world.engine.running = true)
    (hv : m₁.world.visible? id = some (.function (.closure (some place))))
    (hbinding : m₁.world.engine.bindings[place]? = some b) :
    (∀ s ∈ slots ++ receiver.toList,
      Value.ofRecord (m₁.world.lend s) = .ok (m₁.world.image s)) ∧
    (slots.length ≤ m₁.world.engine.config.maxArguments →
      ∃ taken m₂, m₁.Gains ⟨taken, [], [calledWith m₁.world b slots receiver,
          entering m₁.world id place slots receiver]⟩ m₂ ∧
        let code := runCode (inside m₁.world patience depth) m₁.world.stack.length
          (b.body b.captured (slots.map m₁.world.image) ((receiver.map m₁.world.image).getD .null))
        (∃ halt, code m₂ = .stopped halt ∧ way.act on m = .stopped halt) ∨
          ∃ outcome m₃ r answer m', code m₂ = .done outcome m₃ ∧
            way.act on m = .done answer m' ∧ m₃.Notes [.returned r] m') ∧
    (m₁.world.engine.config.maxArguments < slots.length →
      ∃ block answer m', way.act on m = .done answer m' ∧
        m₁.Notes [.returned (marked m₁.world.engine.config tooMany.message block),
          entering m₁.world id place slots receiver] m' ∧
        way.Refused receiver (refusal m₁.world.engine.config) answer) := by
  have hc : on.call.Safe t := hcall ▸ safe_callNative t patience (depth + 1)
  have hg₀ := hg.raise hg.keeps (List.suffix_refl _)
  obtain ⟨hg₁, hcovers⟩ := h.ready hc hg₀
  have hp := hg₁.sound.counted.proper
  have halive : ∀ s ∈ slots ++ receiver.toList, m₁.world.Alive s := by
    intro s hs
    refine alive_of_covers hg₁ hcovers s ?_
    simp only [List.mem_append] at hs ⊢
    exact hs.elim .inr fun hs => .inl (.inr hs)
  have hcontinues := h.continues hc hg₀ hv
  rw [hcall] at hcontinues
  refine ⟨ofRecord_lent hp halive, fun hn => ?_, fun hn => ?_⟩
  · obtain ⟨taken, m₂, hgains, heq⟩ := callSlot_reads hp hrunning hbinding hv patience depth
      halive hn
    refine ⟨taken, m₂, hgains, ?_⟩
    intro code
    cases hrun : code m₂ with
    | stopped halt => exact .inl ⟨halt, rfl, hcontinues.stopped halt (heq.trans (bind_stopped hrun))⟩
    | raised fault m₃ =>
      have hspec : Spec t False m₁.world.stack (Over 0 m₁.world.stack)
          (invoke (callNative patience (depth + 1)) (some id) (.closure (some place)) receiver slots) _ :=
        spec_invoke (hcall ▸ hc) _ hcovers
      have hout := hspec m₁ hg₁ (over_refl _)
      have hinvoke : invoke (callNative patience (depth + 1)) (some id) (.closure (some place))
          receiver slots m₁ = .raised fault m₃ :=
        (bind_done (nativeOf_eq hv)).symm.trans (heq.trans (bind_raised hrun))
      rw [hinvoke] at hout
      exact hout.1.elim
    | done outcome m₃ =>
      obtain ⟨r, m₄, hconclude, hm₄⟩ := silent_conclude m₁.world.stack.length
        m₁.world.engine.config.errorMarker outcome m₃
      obtain ⟨_, m₅, hadopt, hm₅⟩ := silent_adoptReturn r (m₄.noting (.returned r))
      obtain ⟨answer, m', hfinish, hm'⟩ := silent_finish m.world.stack.length way m₅
      have hslot := heq.trans ((bind_done hrun).trans ((bind_done hconclude).trans hadopt))
      refine .inr ⟨outcome, m₃, r, answer, m', rfl, (hcontinues.done _ _ hslot).trans hfinish,
        [⟨.returned r, m₄.world⟩], ?_, rfl⟩
      rw [hm', hm₅, ← hm₄]
      rfl
  · obtain ⟨block, m₂, hrun, hgains⟩ := callSlot_fails hp hrunning hbinding hv patience depth
      receiver hn
    obtain ⟨answer, m', hfinish, hmoments⟩ := silent_finish m.world.stack.length way m₂
    refine ⟨block, answer, m', (hcontinues.done _ _ hrun).trans hfinish, ?_, ?_⟩
    · obtain ⟨new, hnew, hevents⟩ := hgains.moments
      exact ⟨new, hmoments.trans hnew, hevents⟩
    · exact h.refused hc hg₀ hgains.stack (cut_cut _) hfinish

/-- A code that no kind has, a function passed as an array, and for the receiver a text that is
missing: the closure gets null, the function and the empty text. -/
theorem closure_runs_once_malformed :
    let w := ((World.initial .default).bind none [] Stock.echo).install
      (.function (.closure (some 0)))
    let m : Machine := ⟨w, []⟩
    let records : List Record := [{ Record.null with code := 99 }, .ofHandle .array 0]
    let this : Record := { Record.null with code := Kind.string.code }
    m.Good ⟨0, False, [], True⟩ [] ∧
      ∃ m₁, Arrives ⟨0, callNative 0 1, 0⟩ (.entry (some 0) 2 (some records) (some this)) m 0
          [.null, .cell 0] (some (.scalar (.string ""))) m₁ ∧
        ∃ taken m₂ entered, m₁.Gains ⟨taken, [],
          [.called none [.null, .handle .function 0] (.string ""), entered]⟩ m₂ := by
  intro w m records this
  let t : Limits := ⟨0, False, [], True⟩
  have hmove : World.Move t (World.initial .default) w :=
    (World.move_bind t _ none [] Stock.echo).trans (World.move_installEmpty t _ _ rfl)
  have hg : m.Good t [] :=
    (Machine.good_initial .default False True).move hmove List.nil_suffix
  let on : Surroundings := ⟨0, callNative 0 1, 0⟩
  have hcell : m.world.cellOf? .function (some 0) = some 0 := rfl
  have hcount : (0 : Int) ≤ 2 := by decide
  have harray : some records = none → (2 : Int) = 0 := by simp
  obtain ⟨_, m₁, hgains, harrives⟩ := arrives_entry on (some this) hcell hcount harray
  have hcall : on.call = callNative 0 (0 + 1) := rfl
  have hrunning : m₁.world.engine.running = true := by rw [hgains.engine]; rfl
  have hv : m₁.world.visible? 0 = some (.function (.closure (some 0))) := hgains.visible? 0
  have hbinding : m₁.world.engine.bindings[0]? = some ⟨none, [], Stock.echo⟩ := by
    rw [hgains.engine]
    rfl
  have hlimit : m₁.world.engine.config.maxArguments = 256 := by rw [hgains.engine]; rfl
  obtain ⟨-, hruns, -⟩ := closure_runs_once hg hcall harrives hrunning hv hbinding
  obtain ⟨taken, m₂, hgains₂, -⟩ := hruns (by rw [hlimit]; decide)
  have hkind : m₁.world.kindOf (.cell 0) = .function := hgains.kindOf (.cell 0)
  have hcalled : calledWith m₁.world ⟨none, [], Stock.echo⟩ [.null, .cell 0]
      (some (.scalar (.string ""))) = .called none [.null, .handle .function 0] (.string "") := by
    have himage : m₁.world.image (.cell 0) = .handle .function 0 :=
      congrArg (Value.handle · 0) hkind
    have htext : cut "" = "" := by decide
    change Event.called none [.null, m₁.world.image (.cell 0)] (.string (cut "")) = _
    rw [himage, htext]
  exact ⟨hg, m₁, harrives, taken, m₂, _, hcalled ▸ hgains₂⟩

end Invocation
end Enclave
