import Enclave.Proofs.Boundary.Entry
import Enclave.Proofs.Boundary.Stored
import Enclave.Proofs.Script.Refusals

/-! # Calls that come to nothing

When an entry point reports failure, nothing is different afterwards but for references that it was
handed and that it gave up, with all that follows from a drop. What it lent or shared on its way it has
taken back, and it has run no native function.
-/
namespace Enclave

/-- The machine `m'` is the machine `m` after a call that came to nothing and gave up the references of
the slots `dropped`. No reference was lost, and all else is the same, but for the counters of the heap and
of text blocks. -/
structure Machine.Undone (m : Machine) (dropped : List Slot) (m' : Machine) : Prop where
  cells : ∀ id, m'.world.heap.cell? id = (m.world.heap.releaseSlots dropped).cell? id
  payloads : ∀ id p, m'.world.heap.payload? id = some p → m.world.heap.payload? id = some p
  hand : ∀ id, holders m'.world.stack id + holders dropped id = holders m.world.stack id
  lost : ∀ id, holders m'.world.lost id = holders m.world.lost id
  blocks : m'.world.ledger.outstanding = m.world.ledger.outstanding
  rest : { m'.world with
    heap := m.world.heap, ledger := m.world.ledger, stack := m.world.stack,
    lost := m.world.lost } = m.world
  moments : m'.moments = m.moments

namespace Machine

variable {m m' : Machine} {ss dropped : List Slot}

/-- Some references in hand were dropped, and that is all. -/
theorem undone_without {stack : List Slot}
    (hs : ∀ id, holders stack id + holders dropped id = holders m.world.stack id) :
    m.Undone dropped { m with world := m.world.without dropped stack } :=
  ⟨fun _ => rfl, fun _ _ hp => Heap.payload?_of_releaseAll hp, hs, fun _ => rfl, rfl, rfl, rfl⟩

theorem undone_drop (m : Machine) :
    m.Undone [m.world.top] { m with world := m.world.drop } := by
  rw [World.drop_eq]
  exact undone_without m.world.holders_tail

/-- What was gained holds no reference. -/
theorem Gains.undone (h : m.Gains ⟨ss, [], []⟩ m') (hs : ∀ id, holders ss id = 0) :
    m.Undone [] m' := by
  have hcells : ∀ id, m'.world.heap.cell? id = m.world.heap.cell? id := by
    intro id
    rw [h.heap.cells, hs]
    cases m.world.heap.cell? id <;> rfl
  constructor
  · intro id
    rw [Heap.releaseSlots_nil, hcells]
  · intro id p hp
    rw [← h.heap.payload?]
    exact hp
  · intro id
    rw [h.stack, holders_append, hs, holders_nil]
    omega
  · intro id
    rw [h.lost]
  · exact h.blocks
  · have hrest := congrArg (fun w => { w with lost := m.world.lost }) h.rest
    exact hrest
  · exact h.moments_eq

/-- Null that was given out is forgotten where there is no place for it. -/
theorem Gains.undone_forget (h : m.Gains ⟨[.null], [], []⟩ m') :
    m.Undone [] { m' with world := m'.world.forget } := by
  have hback := h.undone fun _ => rfl
  have hstack : m'.world.stack = .null :: m.world.stack := h.stack
  constructor
  · exact hback.cells
  · exact hback.payloads
  · intro id
    simp [World.forget, hstack]
  · intro id
    simp [World.forget, hstack, hback.lost]
  · exact hback.blocks
  · exact hback.rest
  · exact hback.moments

/-- Unwinding to the present height changes nothing. -/
theorem unwind_self (m : Machine) :
    { m with world := m.world.unwind m.world.stack.length } = m := by
  simp [World.unwind, World.dropMany, Heap.releaseSlots_nil]

theorem undone_refl (m : Machine) : m.Undone [] m :=
  (Gains.refl m).undone fun _ => rfl

/-- After a call that came to nothing, as many references were given up as `consumed` says. -/
def Forfeits (m : Machine) (consumed : CellId → Nat) (m' : Machine) : Prop :=
  ∃ dropped, (∀ id, holders dropped id = consumed id) ∧ m.Undone dropped m'

theorem Undone.forfeits {consumed : CellId → Nat} (h : m.Undone dropped m')
    (hc : ∀ id, holders dropped id = consumed id) : m.Forfeits consumed m' :=
  ⟨dropped, hc, h⟩

theorem Undone.clean (h : m.Undone [] m') : m.Forfeits (fun _ => 0) m' :=
  h.forfeits fun _ => rfl

theorem forfeits_drop (m : Machine) :
    m.Forfeits m.world.top.owns { m with world := m.world.drop } :=
  m.undone_drop.forfeits fun _ => by simp

end Machine

namespace Act

variable {m m' : Machine} {kind : Kind} {handle : Option CellId} {find : Payload → Option Slot}
  {given : Given} {running : Bool} {name : Option Text.Bytes} {on : Surroundings}

/-! ## Looking into cells -/

/-- A look at a cell changes nothing. -/
theorem read_eq {β : Type} {f : Payload → β} {refused : β} (id : CellId) (m : Machine) :
    reading id (fun p => pure (f p)) (pure refused) m =
      .done (((m.world.visible? id).map f).getD refused) m := by
  rw [reading_eq (fun p => unguarded_pure (f p)) (unguarded_pure refused)]
  cases m.world.visible? id <;> rfl

theorem gains_null (m : Machine) :
    m.Gains ⟨[.null], [], []⟩ { m with world := m.world.push .null } :=
  (Machine.Gains.refl m).push .null

theorem undone_null (m : Machine) : m.Undone [] { m with world := m.world.push .null } :=
  (gains_null m).undone fun _ => rfl

theorem kind_of_cellOf? {id : CellId} {p : Payload} (hp : m.world.heap.Proper)
    (hc : m.world.cellOf? kind handle = some id) (hv : m.world.heap.payload? id = some p) :
    p.kind = kind := by
  have hid := World.handle_of_cellOf? hc
  subst hid
  have hkind := World.kind?_of_cellOf? hc
  rw [hp.kind? id, hv] at hkind
  exact Option.some.inj hkind

/-- To ask for a length changes nothing, and it is that of an array which can be seen, or zero. -/
theorem arrayLength_cases {n : Nat} (h : arrayLength handle m = .done n m') :
    m' = m ∧ (n = 0 ∨ ∃ id elements, handle = some id ∧
      m.world.visible? id = some (.array elements) ∧ n = min elements.size maxCount) := by
  unfold arrayLength at h
  rw [bind_done (world_eq m)] at h
  cases hc : m.world.cellOf? .array handle with
  | none =>
    rw [hc] at h
    cases h
    exact ⟨rfl, .inl rfl⟩
  | some id =>
    rw [hc] at h
    dsimp only at h
    rw [reading_eq (fun p => by cases p <;> exact unguarded_pure _) (unguarded_pure 0)] at h
    cases hv : m.world.visible? id with
    | none =>
      rw [hv] at h
      cases h
      exact ⟨rfl, .inl rfl⟩
    | some p =>
      rw [hv] at h
      cases p with
      | array elements =>
        cases h
        exact ⟨rfl, .inr ⟨id, elements, World.handle_of_cellOf? hc, hv, rfl⟩⟩
      | object | function | classDesc | task =>
        cases h
        exact ⟨rfl, .inl rfl⟩

/-- To ask for a key changes nothing. -/
theorem objectHas_eq (handle : Option CellId) (key : Option Text.Bytes) (m : Machine) :
    ∃ found, objectHas handle key m = .done found m := by
  unfold objectHas
  rw [bind_done (world_eq m)]
  cases m.world.cellOf? .object handle with
  | none => exact ⟨false, rfl⟩
  | some id =>
    cases key with
    | none => exact ⟨false, rfl⟩
    | some key => exact ⟨_, read_eq id m⟩

section Proper

variable (hp : m.world.heap.Proper) (hfind : ∀ p s, find p = some s → s ∈ p.slots)
include hp hfind

/-- An entry that looks into a cell fails only where none can be seen, and gives out null. -/
theorem giveFrom_failed (h : giveFrom kind handle find m = .done given m')
    (hs : given.status = false) : given = ⟨false, .null⟩ ∧ m.Gains ⟨[.null], [], []⟩ m' := by
  cases hnone : (m.world.cellOf? kind handle).bind m.world.visible? with
  | none =>
    have hturns : Turns m .none (giveFrom kind handle find) fun given k =>
        given = ⟨false, .null⟩ ∧ k = ⟨[.null], [], []⟩ := turns_giveFromRefused hnone
    obtain ⟨_, _, m₁, hrun, hgains, rfl, rfl⟩ := hturns.run
    rw [hrun] at h
    cases h
    exact ⟨rfl, hgains⟩
  | some p =>
    obtain ⟨id, hc, hv⟩ := Option.bind_eq_some_iff.mp hnone
    have hturns : Turns m .none (giveFrom kind handle find) fun given k => given.status = true ∧
        ∃ e b, m.world.Gives ((find p).getD .null) given.record e b ∧ k = ⟨[e], b ++ [], []⟩ :=
      turns_giveFrom hp hc hv (hfind p)
    obtain ⟨_, _, m₁, hrun, -, hstatus, -⟩ := hturns.run
    rw [hrun] at h
    cases h
    rw [hs] at hstatus
    cases hstatus

end Proper

/-! ## Writes -/

/-- A write that is refused leaves nothing behind. -/
theorem undone_storeInto (hp : m.world.heap.Proper) {v : Option Record}
    {exchange : Payload → Slot → Option (Payload × Slot)}
    (h : storeInto kind handle v exchange m = .done false m') : m.Undone [] m' :=
  (gains_of_storeInto hp h).undone fun _ => rfl

theorem undone_arraySet (hp : m.world.heap.Proper) {index : Int} {v : Option Record}
    (h : arraySet handle index v m = .done false m') : m.Undone [] m' := by
  unfold arraySet at h
  by_cases hi : index < 0
  · rw [if_pos hi] at h
    cases h
    exact m.undone_refl
  · rw [if_neg hi] at h
    exact undone_storeInto hp h

theorem undone_objectSet (hp : m.world.heap.Proper) {key : Option Text.Bytes} {v : Option Record}
    (h : objectSet handle key v m = .done false m') : m.Undone [] m' := by
  cases key with
  | none =>
    cases h
    exact m.undone_refl
  | some key => exact undone_storeInto hp h

/-! ## Scripts, functions and globals -/

theorem createNative_failed {f : Option NativeFunction} (h : createNative f m = .done () m')
    (hs : m'.world.top.cell? = none) : m' = { m with world := m.world.push .null } := by
  cases f with
  | none =>
    cases h
    rfl
  | some f =>
    cases h
    cases hs

theorem createClass_failed (h : createClass running name m = .done () m')
    (hs : m'.world.top.cell? = none) : m' = { m with world := m.world.push .null } := by
  cases name with
  | none =>
    cases h
    rfl
  | some name =>
    cases running with
    | false =>
      cases h
      rfl
    | true =>
      cases h
      cases hs

theorem createTask_failed {v : Option Record} (h : createTask v m = .done () m')
    (hs : m'.world.top.cell? = none) : m' = { m with world := m.world.push .null } := by
  cases v with
  | none =>
    cases h
    rfl
  | some r =>
    cases h
    cases hs

/-- Only where there is no runtime or no script a run answers with nothing. -/
theorem runText_failed {code : Option Text.Bytes} (h : runText on running code m = .done none m') :
    m' = m := by
  cases code with
  | none =>
    cases h
    rfl
  | some bytes =>
    cases running with
    | false =>
      cases h
      rfl
    | true =>
      obtain ⟨outcome, m₁, -, h⟩ := bind_done_iff.mp h
      cases outcome with
      | ok u => cases h
      | error fault => cases h

theorem registerNative_failed {scope : ScopeId} {f : Option NativeFunction}
    (h : registerNative scope running name f m = .done false m') : m' = m := by
  cases name with
  | none =>
    cases h
    rfl
  | some name =>
    cases f with
    | none =>
      cases h
      rfl
    | some f =>
      cases running with
      | false =>
        cases h
        rfl
      | true =>
        obtain ⟨-, m₁, -, h⟩ := bind_done_iff.mp h
        obtain ⟨-, m₂, -, h⟩ := bind_done_iff.mp h
        cases h

/-! ## Calls -/

section Call

variable {t : Limits} {keep : List Slot} {call : Caller} {callee : Slot} {receiver : Option Slot}
  {args : List Slot} {argc : Int} {argv : Option (List Record)} {this : Option Record}

theorem nativeOf_same {f : Option NativeFunction} (h : nativeOf callee m = .done f m') : m' = m := by
  rw [nativeOf_run] at h
  cases h
  rfl

/-- A call ends with a fault only before any native function has run. -/
theorem callSlot_raised {fault : Fault} (hc : call.Safe t) (hg : m.Good t keep)
    (hstack : m.world.stack = keep) (hl : Covers keep ([callee] ++ receiver.toList ++ args))
    (h : callSlot call callee receiver args m = .raised fault m') : m' = m := by
  rcases bind_raised_iff.mp h with h | ⟨found, m₁, hfound, h⟩
  · have hspec : Spec t False keep (Over 0 keep) (nativeOf callee) _ := shifts_nativeOf callee keep
    have hout := hspec m hg (hstack ▸ over_refl keep)
    rw [h] at hout
    exact hout.1.elim
  · have hsame := nativeOf_same hfound
    subst hsame
    cases found with
    | none =>
      cases h
      rfl
    | some f =>
      have hspec : Spec t False keep (Over 0 keep) (invoke call callee.cell? f receiver args) _ :=
        spec_invoke hc f hl.called
      have hout := hspec _ hg (hstack ▸ over_refl keep)
      change invoke call callee.cell? f receiver args _ = _ at h
      rw [h] at hout
      exact hout.1.elim

theorem giveTop_status (h : giveTop m = .done given m') : given.status = true := by
  unfold giveTop at h
  rw [bind_done (top_eq m)] at h
  obtain ⟨r, m₁, -, h⟩ := bind_done_iff.mp h
  obtain ⟨-, m₂, -, h⟩ := bind_done_iff.mp h
  cases h
  rfl

theorem gains_borrowAll {m₀ : Machine} {ss slots : List Slot} {records : List Record}
    (hm : m₀.Gains ⟨ss, [], []⟩ m) (h : borrowAll records m = .done slots m') :
    m₀.Gains ⟨slots.reverse ++ ss, [], []⟩ m' := by
  obtain ⟨_, _, m₁, hrun, hgains, -, rfl⟩ := turns_borrowFound records m hm
  rw [hrun] at h
  cases h
  exact hgains

/-- What is borrowed stands on the stack. -/
theorem good_borrowAll {slots : List Slot} {records : List Record} (hg : m.Good t m.world.stack)
    (h : borrowAll records m = .done slots m') :
    m'.Good t m'.world.stack ∧ m.world.stack <:+ m'.world.stack ∧ Covers m'.world.stack slots := by
  have hspec : Spec t False m.world.stack (· = m.world.stack) (borrowAll records) _ :=
    spec_borrowAll records (List.suffix_refl _)
  obtain ⟨hg', hover, hcovers⟩ := hspec.after hg rfl h
  exact ⟨hg'.raise hover.1 (List.suffix_refl _), hover.1, hcovers⟩

/-- A call that the entry point comes to make. What it borrowed and the function are in hand then, and
only if it ends with a fault the entry fails. -/
theorem callFunction_run {id : CellId} (hid : m.world.cellOf? .function handle = some id)
    (hready : ¬ (!running || argc < 0 || (argc != 0 && argv.isNone)) = true)
    (h : callFunction call running handle argc argv this m = .done given m') :
    ∃ args receivers m₁ m₂, borrowAll ((argv.getD []).take argc.toNat) m = .done args m₁ ∧
      borrowAll this.toList m₁ = .done receivers m₂ ∧
      (given.status = true ∨ given = ⟨false, .null⟩ ∧ ∃ fault m₃,
        callSlot call (m₂.world.share (.cell id)).top receivers.head? args
          { m₂ with world := m₂.world.share (.cell id) } = .raised fault m₃ ∧
        m' = { m₃ with world := ((m₃.world.unwind (m₂.world.share (.cell id)).stack.length).unwind
          m.world.stack.length).push .null }) := by
  unfold callFunction at h
  rw [bind_done (world_eq m), hid] at h
  dsimp only at h
  rw [if_neg hready, bind_done (height_eq m)] at h
  obtain ⟨args, m₁, hargs, h⟩ := bind_done_iff.mp h
  obtain ⟨receivers, m₂, hreceivers, h⟩ := bind_done_iff.mp h
  have hshare : share (.cell id) m₂ =
    .done () { m₂ with world := m₂.world.share (.cell id) } := rfl
  rw [bind_done hshare, bind_done (top_eq _)] at h
  obtain ⟨outcome, m₃, hcall, h⟩ := bind_done_iff.mp h
  refine ⟨args, receivers, m₁, m₂, hargs, hreceivers, ?_⟩
  cases outcome with
  | ok u =>
    -- an answer is given out with a status that is no failure
    obtain ⟨made, m₄, hgive, h⟩ := bind_done_iff.mp h
    obtain ⟨-, m₅, -, h⟩ := bind_done_iff.mp h
    cases h
    exact .inl (giveTop_status hgive)
  | error fault =>
    rw [recover_eq] at hcall
    split at hcall
    · cases hcall
    · rename_i m₄ hraised
      cases hcall
      cases h
      exact .inr ⟨rfl, _, m₄, hraised, rfl⟩
    · cases hcall

/-- A call through the entry point fails only before any native function has run. It gives out null, and
what it borrowed is given back. -/
theorem callFunction_failed (hc : call.Safe t) (hg : m.Good t keep)
    (h : callFunction call running handle argc argv this m = .done given m')
    (hs : given.status = false) : given = ⟨false, .null⟩ ∧ m.Gains ⟨[.null], [], []⟩ m' := by
  cases hid : m.world.cellOf? .function handle with
  | none =>
    unfold callFunction at h
    rw [bind_done (world_eq m), hid] at h
    cases h
    exact ⟨rfl, gains_null m⟩
  | some id =>
    by_cases hready : (!running || argc < 0 || (argc != 0 && argv.isNone)) = true
    · unfold callFunction at h
      rw [bind_done (world_eq m), hid] at h
      dsimp only at h
      rw [if_pos hready] at h
      cases h
      exact ⟨rfl, gains_null m⟩
    · obtain ⟨args, receivers, m₁, m₂, hargs, hreceivers, hended⟩ :=
        callFunction_run hid hready h
      rcases hended with hstatus | ⟨rfl, fault, m₃, hraised, rfl⟩
      · rw [hstatus] at hs
        cases hs
      · have hgains := gains_borrowAll (gains_borrowAll (Machine.Gains.refl m) hargs) hreceivers
        obtain ⟨hg₁, -, hcovers₁⟩ := good_borrowAll (hg.raise hg.keeps (List.suffix_refl _)) hargs
        obtain ⟨hg₂, hsuffix₂, hcovers₂⟩ := good_borrowAll hg₁ hreceivers
        have hsuffix₃ := (World.over_share (over_refl m₂.world.stack) (.cell id)).1
        have hg₃ := (hg₂.move (m₂.world.move_share t (.cell id)) hsuffix₃).raise hsuffix₃
          (List.suffix_refl _)
        have hreceiver : Covers m₂.world.stack receivers.head?.toList := by
          intro x hx
          rw [Option.mem_toList] at hx
          exact hcovers₂ x (List.mem_of_mem_head? hx)
        have hlent := ((covers_top (m₂.world.share (.cell id))).append
          (hreceiver.mono hsuffix₃)).append (hcovers₁.mono (hsuffix₂.trans hsuffix₃))
        have hsame := callSlot_raised hc hg₃ rfl hlent hraised
        have hself : (m₂.world.share (.cell id)).unwind (m₂.world.share (.cell id)).stack.length =
            m₂.world.share (.cell id) :=
          congrArg Machine.world ({ m₂ with world := m₂.world.share (.cell id) }).unwind_self
        rw [hsame, hself]
        exact ⟨rfl, ((hgains.share (.cell id)).unwind hg.sound.counted.proper).push .null⟩

end Call

end Act
end Enclave
