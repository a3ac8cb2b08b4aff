import Enclave.Proofs.Act.Calm
import Enclave.Proofs.Host.Invocation
import Enclave.Proofs.Host.Tagged
import Enclave.Proofs.Script.Heights

/-! # What a script gets for a new instance

Whatever a constructor does, and whatever it answers, an expression that makes an instance leaves the
instance: a cell whose number was never given out before, linked to the class. The constructor is the
one that the class had before the instance was made; it is called once, and its answer is dropped.
-/
namespace Enclave

open Act

/-! ## What comes with an answer -/

namespace World

/-- If the slot is for a cell that is alive, the newest entry is for that cell too. -/
def Offers (w : World) (s : Slot) : Prop :=
  ∀ id, s = .cell id → w.heap.isLive id = true → w.top = .cell id

theorem offers_scalar (w : World) (v : Scalar) : w.Offers (.scalar v) :=
  fun _ h => by cases h

theorem offers_secure (w : World) (base : Nat) (s : Slot) : (w.secure base s).Offers s := by
  rintro id rfl hlive
  obtain ⟨p, hp⟩ := Heap.exists_payload? hlive
  rw [World.payload?_secure] at hp
  exact top_secure w base fun _ h => by cases h; exact Heap.isLive_of_payload? hp

theorem offers_share (w : World) (s : Slot) : (w.share s).Offers s := by
  rintro id rfl hlive
  obtain ⟨p, hp⟩ := Heap.exists_payload? hlive
  have hlive' := Heap.isLive_of_payload? ((w.keeps_share (.cell id)).payload id p hp)
  rw [share_alive fun _ h => by cases h; exact hlive']
  rfl

theorem Offers.settle {w : World} {s : Slot} (h : w.Offers s) (n : Nat) :
    (w.settle n).Offers s := by
  intro id hs hlive
  obtain ⟨p, hp⟩ := Heap.exists_payload? hlive
  rw [top_settle]
  exact h id hs (Heap.isLive_of_payload? ((w.keeps_settle n).payload id p hp))

end World

/-- What the runtime makes of a record is a cell only if the record names it. -/
theorem Record.names_of_slot {r : Record} {id : CellId} (h : r.slot = .cell id) :
    ∃ kind, r.Names kind id := by
  unfold slot at h
  split at h
  · cases h
  · cases h
  · cases h
  · rename_i kind hnumber hbool hstring hkind
    split at h
    · split at h
      · cases h
        exact ⟨kind, hkind, ‹_›, ‹_›⟩
      · cases h
    · cases h
  · cases h

namespace Act

variable {on : Surroundings}

/-- A reference to what the record of the answer names comes with it. -/
def Accompanied (x : Act Record) : Prop :=
  ∀ m r m', x m = .done r m' → m'.world.Offers r.slot

theorem accompanied_then {α : Type} (x : Act α) {f : α → Act Record}
    (hf : ∀ a, Accompanied (f a)) : Accompanied (x >>= f) := by
  intro m r m' h
  obtain ⟨a, m₁, -, hrest⟩ := bind_done_iff.mp h
  exact hf a m₁ r m' hrest

theorem accompanied_scalar {r : Record} {v : Scalar} (h : r.slot = .scalar v) :
    Accompanied (pure r) := by
  rintro m _ m' ⟨⟩
  exact h ▸ m.world.offers_scalar v

theorem handBack_offers {v : Value} {m m' : Machine} {r : Record} (hv : m.world.Offers v.slot)
    (hrun : handBack v m = .done r m') : m'.world.Offers r.slot := by
  cases v with
  | handle kind id =>
    cases hrun
    intro x hx hlive
    obtain ⟨_, hnames⟩ := Record.names_of_slot hx
    cases hnames.handle
    exact hv _ rfl hlive
  | scalar c => cases c <;> cases hrun <;> exact World.offers_scalar _ _

/-- Host code that ends with a value leaves what the value is for. -/
theorem runCode_offers (on : Surroundings) (base : Nat) (code : HostCode) {m m' : Machine}
    {v : Value} (hrun : runCode on base code m = .done (.ok v) m') : m'.world.Offers v.slot := by
  induction code generalizing m with
  | finish v => 
    rw [runCode] at hrun
    cases hrun
    exact World.offers_secure _ _ _
  | fail e => 
    rw [runCode] at hrun
    cases hrun
  | panic message =>
    rw [runCode] at hrun
    cases hrun
  | request r next ih =>
    rw [runCode] at hrun
    obtain ⟨reply, m₁, -, hrest⟩ := bind_done_iff.mp hrun
    obtain ⟨_, m₂, -, hrest⟩ := bind_done_iff.mp hrest
    exact ih reply hrest
  | register name label captured body next _ ih =>
    rw [runCode] at hrun
    obtain ⟨reply, m₁, -, hrest⟩ := bind_done_iff.mp hrun
    obtain ⟨_, m₂, -, hrest⟩ := bind_done_iff.mp hrest
    exact ih reply hrest
  | createFunction label captured body next _ ih =>
    rw [runCode] at hrun
    obtain ⟨reply, m₁, -, hrest⟩ := bind_done_iff.mp hrun
    obtain ⟨_, m₂, -, hrest⟩ := bind_done_iff.mp hrest
    exact ih reply hrest

theorem runBinding_offers {base : Nat} {config : Config} {b : Binding} {p : Passed}
    {m m' : Machine} {v : Value} (hrun : runBinding on base config b p m = .done (.ok v) m') :
    m'.world.Offers v.slot := by
  obtain ⟨collected, m₁, -, hrest⟩ := bind_done_iff.mp hrun
  cases collected with
  | error e => cases hrest
  | ok args =>
    obtain ⟨copied, m₂, -, hrest⟩ := bind_done_iff.mp hrest
    cases copied with
    | error e => cases hrest
    | ok receiver =>
      obtain ⟨_, m₃, -, hrest⟩ := bind_done_iff.mp hrest
      exact runCode_offers _ _ _ hrest

/-- What a call settles on before it hands it back is still there. -/
theorem accompanied_conclude {x : Nat → Act (Except String Value)} {failed : String → Act Record}
    (hx : ∀ base m v m', x base m = .done (.ok v) m' → m'.world.Offers v.slot)
    (hfailed : ∀ e, Accompanied (failed e)) :
    Accompanied (do
      let base ← height
      match ← x base with
      | .ok v => do
        settleTo base
        handBack v
      | .error e => do
        unwind base
        failed e) := by
  intro m r m' h
  obtain ⟨base, _, hbase, h⟩ := bind_done_iff.mp h
  obtain ⟨outcome, m₁, hrun, h⟩ := bind_done_iff.mp h
  cases outcome with
  | ok v =>
    obtain ⟨_, m₂, hsettle, hback⟩ := bind_done_iff.mp h
    cases hsettle
    exact handBack_offers ((hx _ _ v m₁ hrun).settle _) hback
  | error e =>
    obtain ⟨_, m₂, -, hfail⟩ := bind_done_iff.mp h
    exact hfailed e m₂ r m' hfail

theorem accompanied_callClosure (place : Option Nat) (p : Passed) :
    Accompanied (callClosure on place p) := by
  refine accompanied_then _ fun w => ?_
  split
  · exact accompanied_then _ fun _ => accompanied_scalar rfl
  · refine accompanied_conclude (fun _ _ _ _ => runBinding_offers) fun e => ?_
    refine accompanied_then _ fun _ m r m' hback => ?_
    exact handBack_offers (World.offers_scalar _ _) hback

theorem accompanied_endow (r : Record) : Accompanied (endow r) := by
  unfold endow
  split
  · rename_i t hkind _
    refine accompanied_then _ fun w => accompanied_then _ fun _ => accompanied_then _ fun _ => ?_
    rintro m _ m' ⟨⟩ id hid
    obtain ⟨kind, hnames⟩ := Record.names_of_slot hid
    have hstring : some Kind.string = some kind := hkind.symm.trans hnames.tag
    cases hstring
    cases hnames.isHandle
  · rename_i kind id hkind hhandle _
    split
    · intro m r' m' hrun
      cases hrun
      intro x hx hlive
      obtain ⟨_, hnames⟩ := Record.names_of_slot hx
      cases hhandle.symm.trans hnames.handle
      exact World.offers_share _ _ _ rfl hlive
    · rename_i hscalar
      refine accompanied_then _ fun _ => ?_
      rintro m _ m' ⟨⟩ x hx
      obtain ⟨_, hnames⟩ := Record.names_of_slot hx
      cases hkind.symm.trans hnames.tag
      exact absurd hnames.isHandle hscalar
  · rename_i hnone hnames
    refine accompanied_then _ fun _ => ?_
    rintro m _ m' ⟨⟩ x hx
    obtain ⟨kind, hnames'⟩ := Record.names_of_slot hx
    exact absurd hnames'.handle (hnames kind x hnames'.tag)

theorem accompanied_callForeign (f : Foreign) (p : Passed) :
    Accompanied (callForeign on f p) := by
  cases f with
  | sum => exact accompanied_then _ fun _ => accompanied_scalar rfl
  | codes => exact accompanied_then _ fun _ => accompanied_then _ fun _ => accompanied_scalar rfl
  | fixed r => exact accompanied_endow r
  | code body =>
    exact accompanied_conclude (fun base m v m' => runCode_offers on base _)
      fun e => accompanied_then _ fun _ => accompanied_scalar rfl

theorem accompanied_callNative (patience depth : Nat) (callee : Option CellId) (f : NativeFunction)
    (argc : Int) (argv : Option (List Record)) (receiver : Option Record) :
    Accompanied (callNative patience depth callee f argc argv receiver) := by
  cases depth with
  | zero => exact fun m r m' h => by cases h
  | succ depth =>
    refine accompanied_then _ fun _ m r m' h => ?_
    obtain ⟨r, m₁, hcall, hend⟩ := bind_done_iff.mp h
    have hoffers : m₁.world.Offers r.slot := by
      cases f with
      | closure place => exact accompanied_callClosure place _ m r m₁ hcall
      | foreign f => exact accompanied_callForeign f _ m r m₁ hcall
    cases hend
    exact hoffers

end Act

/-- A call that began with the moment `opening` has returned with the record `r`: the entry for its answer
stands on the stack, and of the calls that began after it none is open. -/
structure Machine.Returns (m : Machine) (opening : Moment) (r : Record) (m' : Machine) : Prop where
  stack : m'.world.stack = m'.world.top :: m.world.stack
  offers : m'.world.Offers r.slot
  moments : ∃ inner,
    m'.moments = ⟨.returned r, m'.world⟩ :: (inner ++ opening :: m.moments) ∧
      openCalls (inner ++ opening :: m.moments) = opening :: openCalls m.moments

/-- A call that is lent what the stack owns has no faults. -/
theorem Caller.Safe.unraised {t : Limits} {call : Caller} (hc : call.Safe t) {m : Machine}
    {callee : Option CellId} {f : NativeFunction} {argc : Int} {argv : Option (List Record)}
    {receiver : Option Record} (hg : m.Good t m.world.stack)
    (hl : ∀ id ∈ (Event.entered callee f argc argv receiver).lent, Slot.cell id ∈ m.world.stack)
    (fault : Fault) (m' : Machine) : call callee f argc argv receiver m ≠ .raised fault m' := by
  intro hrun
  have hspec := hc callee f argc argv receiver _ hl m hg (over_refl _)
  rw [hrun] at hspec
  exact hspec.1

/-- If it ends, it has returned. -/
theorem Act.callNative_returns {t : Limits} {m m' : Machine} {callee : Option CellId}
    {f : NativeFunction} {argc : Int} {argv : Option (List Record)} {receiver : Option Record}
    {r : Record} {patience depth : Nat} (hg : m.Good t m.world.stack)
    (hl : ∀ id ∈ (Event.entered callee f argc argv receiver).lent, Slot.cell id ∈ m.world.stack)
    (hrun : callNative patience depth callee f argc argv receiver m = .done r m') :
    m.Returns ⟨.entered callee f argc argv receiver, m.world⟩ r m' := by
  refine ⟨?_, accompanied_callNative _ _ _ _ _ _ _ m r m' hrun, ?_⟩
  · have hspec := safe_callNative t patience depth callee f argc argv receiver _ hl m hg (over_refl _)
    have hhigh : m'.world.stack.length ≤ m.world.stack.length + 1 :=
      tidy_callNative patience depth _ _ _ _ _ m r m' hrun
    rw [hrun] at hspec
    obtain ⟨⟨added, hadded⟩, hlow⟩ := hspec.2.2
    rw [← hadded, List.length_append] at hlow hhigh
    obtain ⟨s, rfl⟩ := List.length_eq_one_iff.mp (show added.length = 1 by omega)
    rw [World.top_of_stack hadded.symm, ← hadded]
    rfl
  · cases depth with
    | zero => cases hrun
    | succ depth =>
      let on : Surroundings := ⟨m.world.engine.scope, callNative patience depth, patience⟩
      let m₀ := m.noting (.entered callee f argc argv receiver)
      obtain ⟨r', m₁, hcall, hend⟩ := bind_done_iff.mp (show
        (callPassed on f ⟨argc, argv, receiver⟩ >>= fun r => note (.returned r) >>= fun _ => pure r)
          m₀ = .done r m' from hrun)
      cases hend
      have hsafe : on.call.Safe t := safe_callNative t patience depth
      have hshifts : Shifts t False 0 (callPassed on f ⟨argc, argv, receiver⟩) fun _ => 1 :=
        shifts_callPassed hsafe f _
      have hspec := hshifts m.world.stack m₀ (hg.enter hl) (over_refl _)
      have hconducts : on.call.Conducts ⟨⟨False, False⟩, False⟩ := conducts_callNative _ _ _
      have hways := (tidy_callPassed hconducts f ⟨argc, argv, receiver⟩).ways m₀
      rw [hcall] at hspec hways
      obtain ⟨inner, hinner⟩ := hways.moments
      exact ⟨inner, congrArg _ hinner.symm, hinner ▸ hspec.2.1⟩

/-! ## The instance -/

namespace World

/-- The world with what an answer came with given back: its reference, which is the newest entry, and
the block of its text. -/
def withoutAnswer (w : World) (r : Record) : World :=
  { w.drop with ledger := (r.textBlock?.map w.ledger.free).getD w.ledger }

theorem drop_ledger (w : World) (l : Ledger) :
    ({ w with ledger := l } : World).drop = { w.drop with ledger := l } := by
  cases hs : w.stack <;> simp [World.drop, hs]

/-- The world with a new instance of a class on top of what the class has for a constructor. -/
def instantiated (w : World) (classId : CellId) (methods : Table Slot) : World :=
  (w.share ((methods.get? constructorName).getD .null)).allocInstance classId

/-- The world with nothing left of the constructor, the class and the `count` arguments under the
newest entry. -/
def tidied (w : World) (count : Nat) : World :=
  (w.settle 1).settle (count + 1)

end World

/-- The block of an answer is given back, and its entry dropped. -/
theorem Act.freeText_drop (r : Record) (m : Machine) :
    (freeText r.textBlock? >>= fun _ => drop) m =
      .done () { m with world := m.world.withoutAnswer r } := by
  unfold World.withoutAnswer
  cases hb : r.textBlock? with
  | none =>
    have hledger : m.world.drop.ledger = m.world.ledger := World.Change.drop.ledger _
    change Outcome.done () { m with world := m.world.drop } = _
    rw [Option.map_none, Option.getD_none, ← hledger]
  | some block =>
    change Outcome.done () { m with world := (m.world.freeText block).drop } = _
    rw [World.freeText, World.drop_ledger]
    rfl

/-- The answer of a constructor is taken over, and dropped. -/
theorem Act.adoptReturn_drop (r : Record) (m : Machine) :
    (adoptReturn r >>= fun _ => drop) m =
      .done () { m with world := m.world.withoutAnswer r } := by
  unfold adoptReturn consume
  cases hs : r.slot with
  | cell id => exact freeText_drop r m
  | scalar v =>
    let m₁ : Machine := { m with world := m.world.drop.push v }
    have hledger : m.world.drop.ledger = m.world.ledger := World.Change.drop.ledger _
    have hdropped : m₁.world.withoutAnswer r = m.world.withoutAnswer r := by
      unfold World.withoutAnswer
      rw [World.drop_push]
      exact congrArg (fun l : Ledger => ({ m.world.drop with
        ledger := (r.textBlock?.map l.free).getD l } : World)) hledger
    exact (freeText_drop r m₁).trans (congrArg (fun w => Outcome.done () { m with world := w }) hdropped)

section Evaluation

variable {t : Limits} {on : Surroundings} {callee : Expr} {args : Items} {m m₁ m₂ : Machine}
  {classId id : CellId} {name : String} {methods : Table Slot} {f : NativeFunction}

theorem eval_construct (hcallee : callee.eval on m = .done () m₁)
    (hclass : m₁.world.top = .cell classId) (hargs : args.evalArgs on m₁ = .done () m₂) :
    (Expr.construct callee args).eval on m =
      (construct on.call (.cell classId) (m₂.world.newest args.length) >>= fun _ =>
        settle (args.length + 1)) m₂ := by
  rw [Expr.eval, bind_done hcallee, bind_done (top_eq _), bind_done hargs,
    bind_done (newest_eq _ _), hclass]

/-- Without a constructor there is nothing left to do. -/
theorem eval_construct_none (hcallee : callee.eval on m = .done () m₁)
    (hclass : m₁.world.top = .cell classId) (hargs : args.evalArgs on m₁ = .done () m₂)
    (hproper : m₂.world.heap.Proper)
    (hv : m₂.world.visible? classId = some (.classDesc name methods))
    (hnone : methods.get? constructorName = none) :
    (Expr.construct callee args).eval on m =
      .done () { m₂ with world := (m₂.world.instantiated classId methods).tidied args.length } := by
  have hmade := instantiate_eq hproper hv
  rw [hnone] at hmade
  have hconstruct : construct on.call (.cell classId) (m₂.world.newest args.length) m₂ =
      .done () { m₂ with world := (m₂.world.instantiated classId methods).settle 1 } := by
    rw [construct_instantiate _ _ (World.kindOf_of_visible hproper hv), bind_done hmade,
      World.instantiated, hnone]
    rfl
  rw [eval_construct hcallee hclass hargs, bind_done hconstruct]
  rfl

/-- With a constructor, the call of it is all that can keep the expression from its end. -/
theorem eval_construct_some (hcallee : callee.eval on m = .done () m₁)
    (hclass : m₁.world.top = .cell classId) (hargs : args.evalArgs on m₁ = .done () m₂)
    (hproper : m₂.world.heap.Proper)
    (hv : m₂.world.visible? classId = some (.classDesc name methods))
    (hfound : methods.get? constructorName = some (.cell id))
    (hf : (m₂.world.instantiated classId methods).visible? id = some (.function f)) :
    (Expr.construct callee args).eval on m =
      (on.call (some id) f (m₂.world.newest args.length).length
          (some ((m₂.world.newest args.length).map (m₂.world.instantiated classId methods).lend))
          (some ((m₂.world.instantiated classId methods).lend (.cell m₂.world.heap.next))) >>=
        fun r => change fun w => (w.withoutAnswer r).tidied args.length)
        { m₂ with world := m₂.world.instantiated classId methods } := by
  have hmade : m₂.world.instantiated classId methods =
      (m₂.world.share (.cell id)).allocInstance classId := by
    rw [World.instantiated, hfound]
    rfl
  have hconstruct := construct_eq on.call (m₂.world.newest args.length) hproper hv hfound
  rw [← hmade] at hconstruct
  rw [eval_construct hcallee hclass hargs, bind_congr hconstruct]
  have hcall : callSlot on.call (.cell id) (some (.cell m₂.world.heap.next))
      (m₂.world.newest args.length) { m₂ with world := m₂.world.instantiated classId methods } =
      invoke on.call (some id) f (some (.cell m₂.world.heap.next)) (m₂.world.newest args.length)
        { m₂ with world := m₂.world.instantiated classId methods } :=
    bind_done (nativeOf_eq hf)
  rw [bind_bind, bind_congr hcall, invoke, bind_bind, bind_done (world_eq _), bind_bind]
  refine bind_congr_done fun r m₃ _ => ?_
  have hdropped := adoptReturn_drop r m₃
  calc (adoptReturn r >>= fun _ => (drop >>= fun _ => settle 1) >>= fun _ =>
          settle (args.length + 1)) m₃
      = ((adoptReturn r >>= fun _ => drop) >>= fun _ => settle 1 >>= fun _ =>
          settle (args.length + 1)) m₃ := by simp only [bind_bind]
    _ = _ := bind_done hdropped

/-- Nothing but the instance is new. -/
theorem payload?_instantiated {w : World} (hproper : w.heap.Proper)
    (hv : w.visible? classId = some (.classDesc name methods)) (x : CellId) :
    (w.instantiated classId methods).heap.payload? x =
      if x = w.heap.next then some (.object [] (some classId)) else w.heap.payload? x := by
  have halive := World.alive_methodOr hproper hv constructorName
  have hlive : (w.share ((methods.get? constructorName).getD .null)).heap.isLive classId = true := by
    rw [World.share_alive halive]
    refine Heap.isLive_of_payload? (p := .classDesc name methods) ?_
    exact (Heap.payload?_retainSlot _ _ _).trans (World.payload?_of_visible hv)
  rw [World.instantiated, World.allocInstance, if_pos hlive, World.install, Heap.payload?_alloc]
  have hnext : ((w.share ((methods.get? constructorName).getD .null)).heap.retain classId).next =
      w.heap.next := by
    rw [World.share_alive halive]
    exact (Heap.next_retainSlot _ (.cell classId)).trans (Heap.next_retainSlot _ _)
  have hkept : ((w.share ((methods.get? constructorName).getD .null)).heap.retain
      classId).payload? x = w.heap.payload? x := by
    rw [World.share_alive halive]
    exact (Heap.payload?_retainSlot _ (.cell classId) x).trans (Heap.payload?_retainSlot _ _ x)
  rw [hnext, hkept]

theorem canRead_instantiated (w : World) (classId : CellId) (methods : Table Slot) (place : Place) :
    (w.instantiated classId methods).canRead place = w.canRead place :=
  ((World.Change.allocInstance classId).canRead _ place).trans
    ((World.Change.share _).canRead w place)

/-- The newest entry is an instance of a class, on top of a stack. -/
structure Machine.Holds (m' : Machine) (made classId : CellId) (stack : List Slot) : Prop where
  stack : m'.world.stack = .cell made :: stack
  linked : ∃ properties,
    m'.world.heap.payload? made = some (.object properties (some classId))

/-- However the instance's world evolves, it stays an instance for as long as it is alive. -/
theorem holds_instance {w : World} {m' : Machine} {stack : List Slot} (hproper : w.heap.Proper)
    (hv : w.visible? classId = some (.classDesc name methods))
    (hevolves : (w.instantiated classId methods).Evolves m'.world) (hg : m'.Good t m'.world.stack)
    (hstack : m'.world.stack = .cell w.heap.next :: stack) :
    m'.Holds w.heap.next classId stack := by
  have hmade := payload?_instantiated hproper hv w.heap.next
  rw [if_pos rfl] at hmade
  have hlive : m'.world.heap.isLive w.heap.next = true := hg.isLive (by simp [hstack])
  obtain ⟨p, hp⟩ := Heap.exists_payload? hlive
  obtain ⟨properties, rfl⟩ := hevolves.heap.links _ _ p hmade hp _ _ rfl
  exact ⟨hstack, properties, hp⟩

theorem stack_tidied {w : World} {s c : Slot} {given stack : List Slot} {count : Nat}
    (hstack : w.stack = s :: c :: (given ++ stack)) (hcount : given.length = count + 1) :
    (w.tidied count).stack = s :: stack := by
  have hsettled : (w.settle 1).stack = s :: (given ++ stack) := by
    rw [World.settle, hstack]
    rfl
  rw [World.tidied, World.settle, hsettled, ← hcount]
  simp

theorem stack_instantiated {w : World} (hproper : w.heap.Proper)
    (hv : w.visible? classId = some (.classDesc name methods)) :
    (w.instantiated classId methods).stack =
      .cell w.heap.next :: (methods.get? constructorName).getD .null :: w.stack :=
  World.stack_construct (World.alive_methodOr hproper hv constructorName) classId

/-- The class and the arguments stand on the stack when the instance is made. -/
theorem stack_given (hs : on.call.Safe t) (ht : on.call.Tidy) (hg : m.Good t m.world.stack)
    (hcallee : callee.eval on m = .done () m₁) (hargs : args.evalArgs on m₁ = .done () m₂) :
    m₂.Good t m₂.world.stack ∧
      ∃ given, m₂.world.stack = given ++ m.world.stack ∧ given.length = args.length + 1 := by
  obtain ⟨hg₁, hstack₁⟩ := callee.eval_adds hs ht hg hcallee
  obtain ⟨hg₂, added, hadded, hlength⟩ :=
    (args.shifts_evalArgs hs).adds (args.atMost_evalArgs ht) hg₁ hargs
  refine ⟨hg₂, added ++ [m₁.world.top], ?_, ?_⟩
  · rw [hadded, hstack₁, List.append_assoc, List.singleton_append]
  · rw [List.length_append, hlength, List.length_singleton]

theorem evolves_tidied (w : World) (count : Nat) : w.Evolves (w.tidied count) :=
  (w.evolves_settle 1).trans (World.evolves_settle _ _)

theorem evolves_withoutAnswer (w : World) (r : Record) : w.Evolves (w.withoutAnswer r) :=
  w.evolves_drop.trans (World.evolves_of_same rfl rfl)

/-- Nothing that was alive has the number of the instance. -/
theorem fresh_instance {rules : Rules} (hc : on.call.Conducts rules)
    (hcallee : callee.eval on m = .done () m₁) (hargs : args.evalArgs on m₁ = .done () m₂)
    (hlive : m.world.heap.isLive id = true ∨ m₂.world.heap.isLive id = true) :
    id ≠ m₂.world.heap.next := by
  have hlater : m.world.heap.next ≤ m₂.world.heap.next :=
    ((callee.tidy_eval hc).evolves hcallee).heap.later.next.trans
      ((args.tidy_evalArgs hc).evolves hargs).heap.later.next
  rintro rfl
  rcases hlive with hlive | hlive
  · obtain ⟨cell, hcell⟩ := Heap.isLive_iff.mp hlive
    exact absurd (Heap.lt_next_of_cell? hcell) (Nat.not_lt.mpr hlater)
  · obtain ⟨cell, hcell⟩ := Heap.isLive_iff.mp hlive
    exact absurd (Heap.lt_next_of_cell? hcell) (Nat.lt_irrefl _)

/-- Where no access was in progress, only the budget stops an expression. -/
theorem exhausted_of_stopped (hc : on.call.Conducts ⟨⟨False, False⟩, False⟩) (e : Expr)
    (hguards : m.world.guards = []) {halt : Halt} (hrun : e.eval on m = .stopped halt) :
    halt.why = .exhausted := by
  have hcalm : Calm m.moments [] (e.eval on) := (e.tidy_eval hc).calm False.elim
  have hunder := (hcalm m (Machine.under_start hguards)).1
  rw [hrun] at hunder
  exact hunder.1

/-- When the constructor is called, the stack owns what is lent to it. -/
theorem ready_instantiated (hs : on.call.Safe t) (hg : m.Good t m.world.stack)
    (hcallee : callee.eval on m = .done () m₁) (hclass : m₁.world.top = .cell classId)
    (hargs : args.evalArgs on m₁ = .done () m₂)
    (hv : m₂.world.visible? classId = some (.classDesc name methods))
    (hfound : methods.get? constructorName = some (.cell id)) :
    let w := m₂.world.instantiated classId methods
    ({ m₂ with world := w } : Machine).Good t w.stack ∧
      ∀ x ∈ (w.opening id f (m₂.world.newest args.length) (some (.cell m₂.world.heap.next))).lent,
        Slot.cell x ∈ w.stack := by
  intro w
  obtain ⟨hready, hcovers⟩ :=
    (Invocation.Arrives.construct hcallee hclass hargs hv hfound).ready hs hg
  have hmade : w = (m₂.world.share (.cell id)).allocInstance classId := by
    change m₂.world.instantiated classId methods = _
    rw [World.instantiated, hfound]
    rfl
  rw [← hmade] at hready hcovers
  refine ⟨hready, fun x hx => hcovers x ?_⟩
  exact mem_of_mem_lent hx

end Evaluation

/-- An expression that makes an instance makes it in a cell whose number was never given out, and links
it to the class. If the class has a constructor by then, it is called once, on the instance and on what
the arguments came to. Whatever it does, the expression stops only where the call does; otherwise it
leaves the instance, and of the answer neither the reference that came with it nor its text block. -/
theorem Expr.construct_leaves {t : Limits} {keep : List Slot} (b : Budget) (scope : ScopeId)
    {callee : Expr} {args : Items} {m m₁ m₂ : Machine} {classId : CellId} {name : String}
    {methods : Table Slot} (hg : m.Good t keep)
    (hcallee : callee.eval (b.surroundings scope) m = .done () m₁)
    (hclass : m₁.world.top = .cell classId)
    (hargs : args.evalArgs (b.surroundings scope) m₁ = .done () m₂)
    (hfree : ∀ id, m₂.world.canRead (.payload id) = true)
    (hp : m₂.world.heap.payload? classId = some (.classDesc name methods)) :
    let made := m₂.world.heap.next
    let whole := (Expr.construct callee args).eval (b.surroundings scope) m
    (∀ id, m.world.heap.isLive id = true ∨ m₂.world.heap.isLive id = true → id ≠ made) ∧
    (methods.get? constructorName = none →
      ∃ m', whole = .done () m' ∧ m'.Good t keep ∧ m'.Holds made classId m.world.stack ∧
        m'.moments = m₂.moments) ∧
    ∀ id f, methods.get? constructorName = some (.cell id) →
      m₂.world.heap.payload? id = some (.function f) →
      let begun : Machine := { m₂ with world := m₂.world.instantiated classId methods }
      let slots := m₂.world.newest args.length
      let opening : Moment :=
        ⟨begun.world.opening id f slots (some (.cell made)), begun.world⟩
      let call := callNative b.patience b.depth (some id) f slots.length
        (some (slots.map begun.world.lend)) (some (begun.world.lend (.cell made))) begun
      (∃ halt, call = .stopped halt ∧ whole = .stopped halt ∧
        (m.world.guards = [] → halt.why = .exhausted)) ∨
      ∃ r m₃ m', call = .done r m₃ ∧ begun.Returns opening r m₃ ∧ whole = .done () m' ∧
        m'.Good t keep ∧ m'.Holds made classId m.world.stack ∧
        m'.world = (m₃.world.withoutAnswer r).tidied args.length ∧ m'.moments = m₃.moments := by
  intro made whole
  let on := b.surroundings scope
  have hs : on.call.Safe t := b.safe_surroundings t scope
  have hc : on.call.Conducts ⟨⟨False, False⟩, False⟩ := conducts_callNative _ _ _
  have hg₀ : m.Good t m.world.stack := hg.raise hg.keeps (List.suffix_refl _)
  obtain ⟨hg₂, given, hgiven, hcount⟩ :=
    stack_given hs (tidy_callNative b.patience b.depth) hg₀ hcallee hargs
  have hproper := hg₂.sound.counted.proper
  have hv : m₂.world.visible? classId = some (.classDesc name methods) := by
    rw [World.visible?, if_pos (hfree classId), hp]
  have hstack := stack_instantiated hproper hv
  rw [hgiven] at hstack
  have hend : ∀ {m'}, whole = .done () m' → m'.Good t keep ∧ m'.Good t m'.world.stack :=
    fun hrun =>
      have hshifts := (Expr.construct callee args).shifts_eval hs
      ⟨(Spec.after (hshifts keep) hg (over_zero.mpr hg.keeps) hrun).1, (hshifts.after hg₀ hrun).1⟩
  refine ⟨fun id => fresh_instance hc hcallee hargs, fun hnone => ?_, fun id f hfound hf => ?_⟩
  · have hrun := eval_construct_none hcallee hclass hargs hproper hv hnone
    obtain ⟨hg', hg''⟩ := hend hrun
    refine ⟨_, hrun, hg', ?_, rfl⟩
    exact holds_instance hproper hv (evolves_tidied _ _) hg'' (stack_tidied hstack hcount)
  · intro begun slots opening call
    have hf' : begun.world.visible? id = some (.function f) := by
      have hne : id ≠ made := fun h => absurd (Heap.lt_next_of_payload? (h ▸ hf)) (Nat.lt_irrefl _)
      rw [World.visible?, canRead_instantiated, if_pos (hfree id),
        payload?_instantiated hproper hv, if_neg hne, hf]
    have hwhole : whole = (on.call (some id) f slots.length (some (slots.map begun.world.lend))
        (some (begun.world.lend (.cell made))) >>= fun r =>
          change fun w => (w.withoutAnswer r).tidied args.length) begun :=
      eval_construct_some hcallee hclass hargs hproper hv hfound hf'
    obtain ⟨hready, hl⟩ := ready_instantiated (f := f) hs hg₀ hcallee hclass hargs hv hfound
    change ∀ x ∈ (Event.entered (some id) f slots.length (some (slots.map begun.world.lend))
      (some (begun.world.lend (.cell made)))).lent, Slot.cell x ∈ begun.world.stack at hl
    cases hcall : call with
    | stopped halt =>
      have hstop : whole = .stopped halt := hwhole.trans (bind_stopped hcall)
      exact .inl ⟨halt, rfl, hstop, fun hguards => exhausted_of_stopped hc _ hguards hstop⟩
    | raised fault m₃ =>
      exact absurd hcall (hs.unraised hready hl fault m₃)
    | done r m₃ =>
      have hreturns := callNative_returns hready hl hcall
      have hrun : whole = .done ()
          { m₃ with world := (m₃.world.withoutAnswer r).tidied args.length } :=
        hwhole.trans (bind_done hcall)
      have hdropped : (m₃.world.withoutAnswer r).stack = begun.world.stack := by
        rw [World.withoutAnswer, World.drop, hreturns.stack]
      have hevolves := ((orderly_callNative ⟨False, False⟩ b.patience b.depth) _ _ _ _ _).evolves
        hcall |>.trans (evolves_withoutAnswer m₃.world r) |>.trans (evolves_tidied _ args.length)
      obtain ⟨hg', hg''⟩ := hend hrun
      refine .inr ⟨r, m₃, _, rfl, hreturns, hrun, hg', ?_, rfl, rfl⟩
      exact holds_instance hproper hv hevolves hg''
        (stack_tidied (hdropped.trans hstack) hcount)

/-- The constructor answers with a text in a block. -/
theorem Expr.construct_leaves_text :
    let w := ((((((World.initial .default).install (.function (.foreign .codes))).install
      (.classDesc "C" [])).lift 1).exchangePayload 1 (Payload.putMethod constructorName)).lift
      1).exchangeGlobal 0 "C"
    let m : Machine := ⟨w, []⟩
    m.Good ⟨0, False, [], True⟩ [] ∧
      ∃ m', (Expr.construct (.name "C") .nil).eval ((Budget.mk 1 0).surroundings 0) m = .done () m' ∧
        m'.Holds 2 1 w.stack ∧ m'.world.ledger = ⟨1, 1, []⟩ := by
  intro w m
  have hmove : World.Move ⟨0, False, [], True⟩ (World.initial .default) w :=
    (World.move_installEmpty _ _ _ rfl).trans <| (World.move_installEmpty _ _ _ rfl).trans <|
      (World.move_lift _ _ 1).trans <|
      (World.move_exchangePayload _ _ 1 (Payload.swaps_putMethod _)).trans <|
      (World.move_lift _ _ 1).trans (World.move_exchangeGlobal _ _ 0 "C")
  have hg : m.Good ⟨0, False, [], True⟩ [] :=
    (Machine.good_initial .default False True).move hmove List.nil_suffix
  let b : Budget := ⟨1, 0⟩
  obtain ⟨m₁, hcallee⟩ : ∃ m₁, (Expr.name "C").eval (b.surroundings 0) m = .done () m₁ := ⟨_, rfl⟩
  have hclass : m₁.world.top = .cell 1 := by cases hcallee; rfl
  obtain ⟨m₂, hargs⟩ : ∃ m₂, (Items.nil).evalArgs (b.surroundings 0) m₁ = .done () m₂ := ⟨_, rfl⟩
  have hfree : ∀ id, m₂.world.canRead (.payload id) = true := by
    cases hcallee
    cases hargs
    exact fun _ => rfl
  have hp : m₂.world.heap.payload? 1 = some (.classDesc "C" [(constructorName, .cell 0)]) := by
    cases hcallee
    cases hargs
    rfl
  have hf : m₂.world.heap.payload? 0 = some (.function (.foreign .codes)) := by
    cases hcallee
    cases hargs
    rfl
  have hnext : m₂.world.heap.next = 2 := by
    cases hcallee
    cases hargs
    rfl
  obtain ⟨-, -, hcalls⟩ := Expr.construct_leaves b 0 hg hcallee hclass hargs hfree hp
  rcases hcalls 0 _ rfl hf with ⟨halt, hstop, -⟩ | ⟨r, m₃, m', hcall, -, hrun, -, hholds, hw, -⟩
  · cases hstop
  · refine ⟨hg, m', hrun, hnext ▸ hholds, ?_⟩
    have hledger : m'.world.ledger = (m₃.world.withoutAnswer r).ledger := by
      rw [hw]
      exact ((World.Change.settle 1).ledger _).symm ▸ (World.Change.settle _).ledger _
    rw [hledger]
    cases hcallee
    cases hargs
    cases hcall
    rfl

end Enclave
