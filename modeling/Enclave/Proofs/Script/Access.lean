import Enclave.Proofs.Boundary.Stored
import Enclave.Proofs.Script.Evaluate
import Enclave.Proofs.World.Kept

/-! # What an access to a member does

A script that reads a member gets one slot, which depends on the payload and on the text of the key
only. A script that writes one puts a new payload in the place of the old one, or fails and leaves all
payloads as they were.
-/
namespace Enclave

open Act

/-! ## Display and operators -/

namespace World

variable {w w' : World}

/-- The text of a slot depends on what can be seen. -/
theorem displayIn_congr (h : ∀ id, w'.visible? id = w.visible? id) (room : Nat) (s : Slot) :
    w'.displayIn room s = w.displayIn room s := by
  induction room generalizing s with
  | zero =>
    cases s with
    | scalar v => simp only [displayIn]
    | cell id =>
      rw [displayIn, displayIn, h]
  | succ room ih =>
    cases s with
    | scalar v => simp only [displayIn]
    | cell id =>
      rw [displayIn, displayIn, h]
      cases w.visible? id with
      | none => rfl
      | some p =>
        cases p with
        | array elements => simp only [funext ih]
        | object | function | classDesc | task => rfl

theorem propertyName_congr (h : ∀ id, w'.visible? id = w.visible? id) (key : Slot) :
    w'.propertyName key = w.propertyName key := by
  cases key with
  | scalar v => cases v <;> rfl
  | cell id => exact displayIn_congr h _ _

theorem binary_congr (h : ∀ id, w'.visible? id = w.visible? id) (op : BinaryOp) (l r : Slot) :
    w'.binary op l r = w.binary op l r := by
  cases op <;> simp only [binary, display, displayIn_congr h]

/-- A shared guard hides nothing. -/
theorem visible?_guard (w : World) (place : Place) (id : CellId) :
    (w.guard ⟨place, false⟩).visible? id = w.visible? id := by
  simp [visible?, canRead, guard]

end World

namespace Payload

/-! ## Reading -/

/-- The slot that a script finds under a key. -/
def member (w : World) (key : Slot) : Payload → Slot
  | array elements =>
    if w.propertyName key = "length" then .scalar (.number (Number.ofWhole elements.size))
    else ((elementIndex? key).bind fun i => elements[i]?).getD .null
  | object properties classLink =>
    match properties.get? (w.propertyName key) with
    | some s => s
    | none =>
      match classLink.bind w.visible? with
      | some (classDesc _ methods) => (methods.get? (w.propertyName key)).getD .null
      | _ => .null
  | classDesc className _ =>
    if w.propertyName key = "name" then .scalar (.string className) else .null
  | task result => if w.propertyName key = "result" then result else .null
  | function _ => .null

/-! ## Writing -/

/-- What a script that writes under a key makes of a payload, and what it drives out. -/
def assign (w : World) (key s : Slot) : Payload → Except Fault (Payload × Slot)
  | array elements =>
    match elementIndex? key with
    | none => .error (.invalidIndex (w.propertyName key))
    | some index =>
      match putElement index (array elements) s with
      | some exchanged => .ok exchanged
      | none => .error (.indexOutOfRange index)
  | object properties classLink =>
    let name := w.propertyName key
    .ok (object (properties.put name s) classLink, (properties.get? name).getD .null)
  | p => .error (.cannotSet (w.propertyName key) p.kind)

theorem assign_congr {w w' : World} {p : Payload} (h : ∀ id, w'.visible? id = w.visible? id)
    (key s : Slot) : p.assign w' key s = p.assign w key s := by
  cases p <;> simp only [assign, World.propertyName_congr h]

theorem putElement_isSome (elements : Array Slot) (index : Nat) (s : Slot) :
    (putElement index (array elements) s).isSome = isWritable elements.size index := by
  cases hold : elements[index]? with
  | some old =>
    obtain ⟨hi, -⟩ := Array.getElem?_eq_some_iff.mp hold
    have hgap : isWritable elements.size index = true := by
      rw [isWritable, Nat.sub_eq_zero_of_le hi.le]
      rfl
    rw [hgap, putElement, storeElement, hold]
    rfl
  | none =>
    simp only [putElement, storeElement, hold]
    cases isWritable elements.size index <;> rfl

end Payload

namespace Act

variable {m m₁ : Machine} {id : CellId} {p : Payload} {key s : Slot} {rest dropped : List Slot}

theorem readProperty_eq (properties : Table Slot) (classLink : Option CellId) (name : String)
    (m : Machine) :
    readProperty properties classLink name m =
      share (match properties.get? name with
        | some s => s
        | none =>
          match classLink.bind m.world.visible? with
          | some (.classDesc _ methods) => (methods.get? name).getD .null
          | _ => .null) m := by
  unfold readProperty
  cases properties.get? name with
  | some s => rfl
  | none =>
    cases classLink with
    | none => rfl
    | some id =>
      dsimp only [Option.bind_some]
      rw [reading_eq (fun p => ?_) (unguarded_push _)]
      · cases m.world.visible? id with
        | none => rfl
        | some p => cases p <;> rfl
      · cases p with
        | classDesc => exact unguarded_share _
        | array | object | function | task => exact unguarded_push _

/-- A shared guard around a read of a member has no influence on it. -/
theorem guarded_readProperty (place : Place) (properties : Table Slot) (classLink : Option CellId)
    (name : String) (m : Machine) :
    guarded ⟨place, false⟩ (readProperty properties classLink name) m =
      readProperty properties classLink name m := by
  let inside : Machine := { m with world := m.world.guard ⟨place, false⟩ }
  have hsees : classLink.bind inside.world.visible? = classLink.bind m.world.visible? := by
    cases classLink with
    | none => rfl
    | some id => exact World.visible?_guard _ _ _
  have hinside := readProperty_eq properties classLink name inside
  rw [hsees] at hinside
  rw [readProperty_eq, ← unguarded_share _ ⟨place, false⟩ m]
  unfold guarded
  rw [hinside]

/-- A read of a member brings what is found there to the top. -/
theorem getMember_eq (hv : m.world.visible? id = some p) (key : Slot) :
    getMember (.cell id) key m = share (p.member m.world key) m := by
  unfold getMember
  rw [bind_done (world_eq m)]
  dsimp only
  rw [reading_visible hv]
  · cases p with
    | array elements =>
      simp only [Payload.member]
      split <;> rfl
    | object properties classLink => exact readProperty_eq properties classLink _ m
    | function => rfl
    | classDesc | task =>
      simp only [Payload.member]
      split <;> rfl
  · cases p with
    | array elements =>
      dsimp only
      split
      · exact unguarded_push _ _ m
      · exact unguarded_share _ _ m
    | object properties classLink => exact guarded_readProperty _ properties classLink _ m
    | function => exact unguarded_push _ _ m
    | classDesc =>
      dsimp only
      split <;> exact unguarded_push _ _ m
    | task =>
      dsimp only
      split
      · exact unguarded_share _ _ m
      · exact unguarded_push _ _ m

/-- The newest entry goes under the key, and what the payload held there is dropped. -/
theorem setMember_eq (hkind : m.world.kindOf (.cell id) = p.kind)
    (hw : m.world.writable? id = some p) (hs : m.world.stack = s :: rest) (key : Slot) :
    setMember (.cell id) key m =
      match p.assign m.world key s with
      | .ok (q, old) => .done () { m with world := { m.world with
          heap := (m.world.heap.setPayload id q).releaseSlots [old], stack := rest } }
      | .error fault => .raised fault m := by
  have hpayload := World.payload?_of_writable hw
  have hexchange : ∀ f q old, f p s = some (q, old) →
      (change (·.exchangePayload id f) >>= fun _ => drop) m = .done () { m with world :=
        { m.world with
          heap := (m.world.heap.setPayload id q).releaseSlots [old], stack := rest } } := by
    intro f q old hf
    rw [← World.drop_exchangePayload hs hpayload hf]
    rfl
  unfold setMember
  rw [bind_done (world_eq m)]
  refine (bind_congr (writing_eq (fun p => ?_) (unguarded_raise _) id m)).trans ?_
  · cases p with
    | array elements =>
      dsimp only
      cases elementIndex? key with
      | none => exact unguarded_raise _
      | some index =>
        dsimp only
        split
        · exact unguarded_exchange _ _
        · exact unguarded_raise _
    | object => exact unguarded_exchange _ _
    | function | classDesc | task => exact unguarded_raise _
  · rw [hw]
    cases p with
    | array elements =>
      simp only [Payload.assign]
      cases elementIndex? key with
      | none => rfl
      | some index =>
        have hsome := Payload.putElement_isSome elements index s
        cases hput : Payload.putElement index (.array elements) s with
        | none =>
          rw [hput] at hsome
          simp only [← hsome, hput]
          rfl
        | some exchanged =>
          rw [hput] at hsome
          simp only [← hsome, hput]
          exact hexchange _ _ _ hput
    | object => exact hexchange _ _ _ rfl
    | function | classDesc | task =>
      rw [hkind]
      rfl

/-! ## Parts of a script -/

/-- The value that a part of a script leaves, or its fault. -/
def valueOf (x : Act Unit) : Act (Except Fault Slot) := do
  match ← attempt x with
  | .ok () => .ok <$> top
  | .error fault => pure (.error fault)

/-- What a member expression does when its target and its key have been evaluated. -/
def readMember : Act Unit := do
  let t ← peek 1
  let k ← top
  getMember t k
  settle 2

theorem eval_member (on : Surroundings) (target : Expr) (key : MemberKey) :
    (Expr.member target key).eval on =
      target.eval on >>= fun _ => key.eval on >>= fun _ => readMember := by
  rw [Expr.eval]
  rfl

theorem valueOf_congr {x y : Act Unit} (h : x m = y m₁) : valueOf x m = valueOf y m₁ := by
  have hattempt : attempt x m = attempt y m₁ := by
    unfold attempt
    rw [h]
  exact bind_congr hattempt

theorem valueOf_done {x : Act Unit} (h : x m = .done () m₁) :
    valueOf x m = .done (.ok m₁.world.top) m₁ := by
  have hattempt : attempt x m = .done (.ok ()) m₁ := by
    unfold attempt
    rw [h]
  exact (bind_done hattempt).trans rfl

theorem valueOf_raised {x : Act Unit} {fault : Fault} (h : x m = .raised fault m₁) :
    valueOf x m = .done (.error fault) m₁ := by
  have hattempt : attempt x m = .done (.error fault) m₁ := by
    unfold attempt
    rw [h]
  exact (bind_done hattempt).trans rfl

section Good

variable {t : Limits} {keep : List Slot}

/-- A part of a script that takes `n` entries and leaves its value. -/
theorem spec_valueOf {x : Act Unit} {n : Nat} (hx : Shifts t True n x fun _ => 1) :
    Spec t True keep (Over n keep) (valueOf x) fun _ _ => True := by
  refine (Spec.attempt (hx keep)).bind fun r => ?_
  cases r with
  | ok u => exact Spec.map (spec_top fun s => spec_pure s fun _ _ => trivial) fun _ _ _ => trivial
  | error fault => exact spec_pure _ fun _ _ => trivial

theorem shifts_readMember : Shifts t True 2 readMember fun _ => 1 := by
  intro o
  refine spec_peek 1 fun target => spec_top fun key => ?_
  exact (shifts_getMember target key).bind (Nat.zero_le 2) fun _ =>
    (shifts_settle 2).last (by omega) (by omega)

end Good

/-! ## Assignments -/

/-- What an assignment to a payload makes of it: the outcome `r` puts a new payload there, or leaves
all payloads as they are. -/
def Becomes (w : World) (id : CellId) (r : Except Fault (Payload × Slot)) (w' : World) : Prop :=
  match r with
  | .ok (q, _) => w.Sets id q w'
  | .error _ => w.Keeps w'

/-- The value of an assignment. -/
def assigned (w : World) (op : AssignOp) (left right : Slot) : Slot :=
  match compoundOp? op with
  | some binary => .scalar (w.binary binary left right)
  | none => right

variable {g : Gain} {next : Act Unit} {result : Slot}

/-- A write to a member after some entries have come to the top, and what follows the write. -/
theorem setMember_then (hgains : m.Gains g m₁) (hp : m.world.heap.Proper)
    (hw : m.world.writable? id = some p) (hs : m₁.world.stack = s :: rest)
    (hnext : ∀ heap, ∃ m₂ : Machine,
      next { m₁ with world := { m₁.world with heap := heap, stack := rest } } = .done () m₂ ∧
      m₂.world.top = result ∧
      World.Keeps { m₁.world with heap := heap, stack := rest } m₂.world) :
    ∃ m₂, valueOf (setMember (.cell id) key >>= fun _ => next) m₁ =
        .done ((p.assign m.world key s).map fun _ => result) m₂ ∧
      Becomes m.world id (p.assign m.world key s) m₂.world := by
  have hkeeps := World.keeps_of_gains hgains
  have hkind : m₁.world.kindOf (.cell id) = p.kind :=
    (hgains.kindOf _).trans (World.kindOf_of_visible hp (World.visible?_of_writable hw))
  have hw₁ : m₁.world.writable? id = some p := by
    rw [World.writable?, hgains.canWrite, hgains.heap.payload?]
    exact hw
  have hset := setMember_eq hkind hw₁ hs key
  rw [Payload.assign_congr hgains.visible?] at hset
  cases hr : p.assign m.world key s with
  | error fault =>
    rw [hr] at hset
    exact ⟨m₁, valueOf_raised (bind_raised hset), hkeeps⟩
  | ok exchanged =>
    obtain ⟨q, old⟩ := exchanged
    rw [hr] at hset
    obtain ⟨m₂, hrun, htop, hlater⟩ := hnext ((m₁.world.heap.setPayload id q).releaseSlots [old])
    have hsets := World.sets_write (World.payload?_of_writable hw₁) q [old] rest
    refine ⟨m₂, ?_, hkeeps.sets (hsets.keeps hlater)⟩
    rw [valueOf_done ((bind_done hset).trans hrun), htop]
    rfl

section Good

variable {t : Limits} {keep : List Slot}

/-- Whatever is found in a payload is alive. -/
theorem alive_member (hp : m.world.heap.Proper) (hv : m.world.visible? id = some p) (key : Slot) :
    m.world.Alive (p.member m.world key) := by
  cases p with
  | array elements =>
    simp only [Payload.member]
    split
    · exact World.alive_scalar _
    · refine World.alive_found_visible hp hv fun s hs => ?_
      obtain ⟨i, -, hi⟩ := Option.bind_eq_some_iff.mp hs
      exact Array.mem_toList_iff.mpr (Array.mem_of_getElem? hi)
  | object properties classLink =>
    simp only [Payload.member]
    split
    · rename_i s hs
      exact World.alive_of_mem_visible hp hv
        (List.mem_append_left _ (Table.mem_values_of_get? hs))
    · split
      · rename_i className methods hclass
        obtain ⟨classId, -, hvisible⟩ := Option.bind_eq_some_iff.mp hclass
        exact World.alive_found_visible hp hvisible fun s => Table.mem_values_of_get?
      · exact World.alive_scalar _
  | function => exact World.alive_scalar _
  | classDesc =>
    simp only [Payload.member]
    split <;> exact World.alive_scalar _
  | task result =>
    simp only [Payload.member]
    split
    · exact World.alive_of_mem_visible hp hv (List.mem_singleton_self _)
    · exact World.alive_scalar _

theorem readMember_eq (hg : m.Good t keep) (hv : m.world.visible? id = some p)
    (hs : m.world.stack = key :: .cell id :: rest) :
    ∃ m₁, valueOf readMember m = .done (.ok (p.member m.world key)) m₁ ∧
      m.world.Keeps m₁.world := by
  have hp := hg.sound.counted.proper
  let found := p.member m.world key
  let m₁ : Machine := { m with world := m.world.share found }
  have hstack : m₁.world.stack = found :: key :: .cell id :: rest := by
    change (m.world.share found).stack = _
    rw [World.share_alive (alive_member hp hv key), hs]
  have hpeek : peek 1 m = .done (.cell id) m := by
    change Outcome.done (m.world.stack.getD 1 .null) m = _
    rw [hs]
    rfl
  have htop : m.world.top = key := World.top_of_stack hs
  have hrun : readMember m = .done () { m with world := m₁.world.settle 2 } := by
    unfold readMember
    rw [bind_done hpeek, bind_done (top_eq m), htop, bind_done (getMember_eq hv key)]
    rfl
  refine ⟨{ m with world := m₁.world.settle 2 }, ?_,
    (World.keeps_share m.world found).trans (World.keeps_settle m₁.world 2)⟩
  rw [valueOf_done hrun]
  change Outcome.done (Except.ok (m₁.world.settle 2).top) _ = _
  rw [World.settle, hstack]
  rfl

theorem settle_done {n : Nat} (hs : m.world.stack = s :: rest) :
    ∃ m₁, settle n m = .done () m₁ ∧ m₁.world.top = s ∧ m.world.Keeps m₁.world := by
  refine ⟨{ m with world := m.world.settle n }, rfl, ?_, World.keeps_settle _ n⟩
  change (m.world.settle n).top = s
  rw [World.settle, hs]
  rfl

theorem load_member (hp : m.world.heap.Proper) (hv : m.world.visible? id = some p) (key : Slot) :
    ∃ m₁, getMember (.cell id) key m = .done () m₁ ∧ m₁.world.top = p.member m.world key ∧
      m.Gains ⟨[p.member m.world key], [], []⟩ m₁ := by
  have hfound := World.found_of_alive (alive_member hp hv key)
  have hgains := (Machine.Gains.refl m).share (p.member m.world key)
  rw [hfound] at hgains
  exact ⟨_, getMember_eq hv key, World.top_of_stack hgains.stack, hgains⟩

theorem assignTo_compound (scope : ScopeId) (place : Location) {op : AssignOp} {binary : BinaryOp}
    (h : compoundOp? op = some binary) :
    assignTo scope place op = (do
      let right ← top
      load scope place
      let left ← top
      let w ← world
      drop
      push (w.binary binary left right)
      push (w.binary binary left right)
      store scope place
      settle (place.width + 1)) := by
  cases op <;> cases h <;> rfl

/-- What is assigned to a member, how it comes to the top, and what follows the write. -/
theorem assignTo_prepares (hg : m.Good t keep) (hv : m.world.visible? id = some p)
    (scope : ScopeId) {op : AssignOp} (hop : op ≠ .other) {right : Slot}
    (hs : m.world.stack = right :: key :: .cell id :: rest) :
    let s := assigned m.world op (p.member m.world key) right
    ∃ n g m₁, m.Gains g m₁ ∧ (∃ beneath, m₁.world.stack = s :: s :: beneath) ∧
      assignTo scope (.member (.cell id) key) op m =
        (setMember (.cell id) key >>= fun _ => settle n) m₁ := by
  have hp := hg.sound.counted.proper
  have htop : m.world.top = right := World.top_of_stack hs
  cases hc : compoundOp? op with
  | none =>
    obtain rfl : op = .set := by cases op <;> first | rfl | exact absurd rfl hop | cases hc
    have halive : m.world.Alive right := by
      rintro x rfl
      exact World.isLive_of_stack hg.sound.counted (by rw [hs]; exact List.mem_cons_self)
    have hgains := (Machine.Gains.refl m).share right
    have hstack := hgains.stack
    rw [World.found_of_alive halive, hs] at hstack
    refine ⟨2, _, { m with world := m.world.share right }, hgains, ⟨_, hstack⟩, ?_⟩
    change (top >>= fun right => _) m = _
    rw [bind_done (top_eq m), htop]
    rfl
  | some binary =>
    obtain ⟨m₁, hload, hleft, hgains⟩ := load_member hp hv key
    let v := m.world.binary binary (p.member m.world key) right
    have hv : m₁.world.binary binary (p.member m.world key) right = v :=
      World.binary_congr hgains.visible? binary _ right
    have hassigned : assigned m.world op (p.member m.world key) right = .scalar v := by
      simp only [assigned, hc, v]
    have hgains₂ := ((hgains.drop hp).push v).push v
    refine ⟨3, _, _, hgains₂, ?_, ?_⟩
    · rw [hassigned]
      exact ⟨_, hgains₂.stack⟩
    · rw [assignTo_compound scope _ hc, bind_done (top_eq m)]
      change (getMember (.cell id) key >>= fun _ => _) m = _
      rw [bind_done hload, bind_done (top_eq m₁), bind_done (world_eq m₁), htop, hleft, hv]
      rfl

theorem assignTo_eq (hg : m.Good t keep) (hw : m.world.writable? id = some p) (scope : ScopeId)
    {op : AssignOp} (hop : op ≠ .other) {right : Slot}
    (hs : m.world.stack = right :: key :: .cell id :: rest) :
    let s := assigned m.world op (p.member m.world key) right
    ∃ m₁, valueOf (assignTo scope (.member (.cell id) key) op) m =
        .done ((p.assign m.world key s).map fun _ => s) m₁ ∧
      Becomes m.world id (p.assign m.world key s) m₁.world := by
  intro s
  obtain ⟨n, g, m₁, hgains, ⟨beneath, hstack⟩, hrun⟩ :=
    assignTo_prepares hg (World.visible?_of_writable hw) scope hop hs
  rw [valueOf_congr hrun]
  exact setMember_then hgains hg.sound.counted.proper hw hstack fun heap => settle_done rfl

/-- The number before and the number after an update. -/
def updated (grows : Bool) (current : Slot) : Float × Float :=
  (current.toNumber, if grows then current.toNumber + 1.0 else current.toNumber - 1.0)

theorem updateAt_eq (hg : m.Good t keep) (hw : m.world.writable? id = some p) (scope : ScopeId)
    (grows returnsNew : Bool) (hs : m.world.stack = key :: .cell id :: rest) :
    let numbers := updated grows (p.member m.world key)
    let s : Slot := .scalar (.number numbers.2)
    let result : Slot := .scalar (.number (if returnsNew then numbers.2 else numbers.1))
    ∃ m₁, valueOf (updateAt scope (.member (.cell id) key) grows returnsNew) m =
        .done ((p.assign m.world key s).map fun _ => result) m₁ ∧
      Becomes m.world id (p.assign m.world key s) m₁.world := by
  intro numbers s result
  have hp := hg.sound.counted.proper
  obtain ⟨m₁, hload, hcurrent, hgains⟩ := load_member hp (World.visible?_of_writable hw) key
  have hgains₂ := (hgains.drop hp).push (.number numbers.2)
  have hstack := hgains₂.stack
  rw [hs] at hstack
  have hrun : updateAt scope (.member (.cell id) key) grows returnsNew m =
      (setMember (.cell id) key >>= fun _ => do
        push (.number (if returnsNew then numbers.2 else numbers.1))
        settle 2) { m₁ with world := m₁.world.drop.push (.number numbers.2) } := by
    unfold updateAt
    change (getMember (.cell id) key >>= fun _ => _) m = _
    rw [bind_done hload, bind_done (top_eq m₁), hcurrent]
    rfl
  rw [valueOf_congr hrun]
  refine setMember_then hgains₂ hp hw hstack fun heap => ?_
  let stored : World := { m₁.world.drop with heap := heap, stack := key :: .cell id :: rest }
  obtain ⟨m₂, hsettle, htop, hkeeps⟩ :=
    settle_done (m := ⟨stored.push (.number (if returnsNew then numbers.2 else numbers.1)), _⟩) rfl
  exact ⟨m₂, hsettle, htop, hkeeps.later, hkeeps.payload⟩

end Good

end Act
end Enclave
