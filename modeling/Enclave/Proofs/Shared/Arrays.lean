import Mathlib.Logic.Function.Basic
import Enclave.Proofs.Host.Reads
import Enclave.Proofs.Host.Sent
import Enclave.Proofs.Script.Access
import Enclave.Proofs.Shared.History
import Enclave.Proofs.Shared.Lists

/-! # Arrays are lists

A host with a view of an array and a script that has the array in a slot see one list. Either of them
may put a slot at any place that is not too far behind the end, with nulls up to it, and both read what
was put there last.
-/
namespace Enclave

open Act

/-! ## Single reads and writes -/

section Single

variable {w : World} {m : Machine} {id : CellId} {elements : Array Slot}

theorem member_array (key : Slot) :
    (Payload.array elements).member w key = listMember w elements.toList key := by
  simp only [Payload.member, listMember, Array.length_toList, Array.getElem?_toList]

theorem assign_array (w : World) (elements : Array Slot) (key s : Slot) :
    match listAssign w elements.toList key s with
    | .ok l => ∃ old, (Payload.array elements).assign w key s = .ok (.array l.toArray, old)
    | .error fault => (Payload.array elements).assign w key s = .error fault := by
  simp only [Payload.assign, listAssign, Array.length_toList]
  cases elementIndex? key with
  | none => rfl
  | some i =>
    simp only [Payload.putElement_eq]
    by_cases hgap : i ≤ elements.size + maxElementGap
    · simp only [if_pos hgap]
      exact ⟨_, rfl⟩
    · simp only [if_neg hgap]

theorem viewLength_eq (hp : m.world.heap.Proper)
    (hv : m.world.visible? id = some (.array elements)) :
    viewLength ⟨some id⟩ m = .done (min elements.size maxCount) m := by
  have hc : m.world.cellOf? .array (some id) = some id := World.cellOf?_of_visible hp hv
  change arrayLength (some id) m = _
  unfold arrayLength
  rw [bind_done (world_eq m), hc]
  exact reading_visible hv (unguarded_pure _ _ _)

/-- A write too far behind the end leaves everything as it was. -/
theorem writeElement_far {i : Nat} {v : Value} (hp : m.world.heap.Proper) (hv : m.world.Fits v)
    (hw : m.world.writable? id = some (.array elements)) (hi : i ≤ maxCount)
    (hgap : ¬ i ≤ elements.size + maxElementGap) :
    ∃ m₁, writeElement ⟨some id⟩ i v m = .done (.error (.rejected .arraySet)) m₁ ∧
      m.world.Keeps m₁.world := by
  obtain ⟨r, hlend, hr⟩ := Value.lend_of_fits hp hv
  have hc : m.world.cellOf? .array (some id) = some id :=
    World.cellOf?_of_visible hp (World.visible?_of_writable hw)
  have hnone : Payload.putElement i (.array elements) (m.world.found r.slot) = none := by
    rw [Payload.putElement_eq, if_neg hgap]
  have hstore : storeInto .array (some id) (some r) (Payload.putElement i) m = _ := storeInto_eq hc r
  rw [hw, Option.bind_some, hnone] at hstore
  refine ⟨{ m with world := (m.world.share r.slot).drop }, ?_,
    (World.keeps_share m.world r.slot).trans (World.keeps_drop _)⟩
  change (if i ≤ maxCount then whenOk v.lend _ else _ : Act (Except HostError Unit)) m = _
  rw [if_pos hi, hlend]
  change ((if (i : Int) < 0 then pure false else storeInto .array (some id) (some r)
    (Payload.putElement (i : Int).toNat)) >>= confirm .arraySet) m = _
  rw [if_neg (by omega), Int.toNat_natCast]
  exact (bind_done hstore).trans rfl

end Single

/-! ## Accesses to arrays -/

/-- What a host asks for, and what the parts of a script do. A script has the key on top of the target,
and a value to be assigned on top of both. -/
inductive ArrayOp where
  | create
  | length (id : CellId)
  | get (id : CellId) (i : Nat)
  | set (id : CellId) (i : Nat) (v : Value)
  | push (id : CellId) (v : Value)
  | toList (id : CellId)
  | literal (n : Nat)
  | read (id : CellId) (key : Slot)
  | assign (id : CellId) (key : Slot) (op : AssignOp) (right : Slot)
  | update (id : CellId) (key : Slot) (grows returnsNew : Bool)

inductive ArrayReply where
  | made (view : View .array)
  | length (n : Nat)
  | value (r : Except HostError Value)
  | values (r : Except HostError (List Value))
  | status (r : Except HostError Unit)
  | slot (r : Except Fault Slot)

namespace ArrayOp

def act (on : Surroundings) (base : Nat) : ArrayOp → Act ArrayReply
  | create => .made <$> perform on base .createArray
  | length id => .length <$> perform on base (.arrayLength ⟨some id⟩)
  | get id i => .value <$> perform on base (.arrayGet ⟨some id⟩ i)
  | set id i v => .status <$> perform on base (.arraySet ⟨some id⟩ i v)
  | push id v => .status <$> perform on base (.arrayPush ⟨some id⟩ v)
  | toList id => .values <$> perform on base (.arrayToList ⟨some id⟩)
  | literal n => .slot <$> valueOf (change (·.allocArray n))
  | read _ _ => .slot <$> valueOf readMember
  | assign id key op _ => .slot <$> valueOf (assignTo on.scope (.member (.cell id) key) op)
  | update id key grows returnsNew =>
    .slot <$> valueOf (updateAt on.scope (.member (.cell id) key) grows returnsNew)

def needs : ArrayOp → Nat
  | literal n => n
  | read _ _ => 2
  | assign _ _ _ _ => 3
  | update _ _ _ _ => 2
  | _ => 0

/-- The array, if the operation is on one that is there already. -/
def target? : ArrayOp → Option CellId
  | create | literal _ => none
  | length id | get id _ | set id _ _ | push id _ | toList id | read id _ | assign id _ _ _
  | update id _ _ _ => some id

/-- What is in the hands of the host or on the stack of the script. -/
def Given (w : World) : ArrayOp → Prop
  | set _ i v => i ≤ maxCount ∧ w.Fits v
  | push _ v => w.Fits v
  | read id key => ∃ rest, w.stack = key :: .cell id :: rest
  | assign id key op right => op ≠ .other ∧ ∃ rest, w.stack = right :: key :: .cell id :: rest
  | update id key _ _ => ∃ rest, w.stack = key :: .cell id :: rest
  | _ => True

/-- Nothing is locked, and the array has no more elements than a host can count. -/
def Ready (w : World) (op : ArrayOp) : Prop :=
  w.Unlocked ∧ op.Given w ∧ ∀ id ∈ op.target?, ∃ elements,
    w.heap.payload? id = some (.array elements) ∧ elements.size ≤ maxCount

def answer (w : World) (lists : CellId → List Slot) : ArrayOp → ArrayReply
  | create => .made ⟨some w.heap.next⟩
  | length id => .length (lists id).length
  | get id i => .value (.ok (w.image ((lists id)[i]?.getD .null)))
  | set id i _ =>
    .status (if i ≤ (lists id).length + maxElementGap then .ok () else .error (.rejected .arraySet))
  | push _ _ => .status (.ok ())
  | toList id => .values (.ok ((lists id).map w.image))
  | literal _ => .slot (.ok (.cell w.heap.next))
  | read id key => .slot (.ok (listMember w (lists id) key))
  | assign id key op right =>
    let s := assigned w op (listMember w (lists id) key) right
    .slot ((listAssign w (lists id) key s).map fun _ => s)
  | update id key grows returnsNew =>
    let numbers := updated grows (listMember w (lists id) key)
    .slot ((listAssign w (lists id) key (.scalar (.number numbers.2))).map fun _ =>
      .scalar (.number (if returnsNew then numbers.2 else numbers.1)))

/-- The list that an operation makes, and the array that has it then. -/
def change? (w : World) (lists : CellId → List Slot) : ArrayOp → Option (CellId × List Slot)
  | create => some (w.heap.next, [])
  | set id i v =>
    if i ≤ (lists id).length + maxElementGap then some (id, written (lists id) i v.slot) else none
  | push id v => some (id, lists id ++ [v.slot])
  | literal n => some (w.heap.next, w.newest n)
  | assign id key op right =>
    let s := assigned w op (listMember w (lists id) key) right
    (listAssign w (lists id) key s).toOption.map (id, ·)
  | update id key grows _ =>
    let numbers := updated grows (listMember w (lists id) key)
    (listAssign w (lists id) key (.scalar (.number numbers.2))).toOption.map (id, ·)
  | length _ | get _ _ | toList _ | read _ _ => none

/-- The lists after an operation. All others are as they were. -/
def next (w : World) (lists : CellId → List Slot) (op : ArrayOp) : CellId → List Slot :=
  match op.change? w lists with
  | some (id, l) => Function.update lists id l
  | none => lists

end ArrayOp

/-- Every array has the elements of its list. -/
def World.HasLists (w : World) (lists : CellId → List Slot) : Prop :=
  ∀ id elements, w.heap.payload? id = some (.array elements) → lists id = elements.toList

namespace World

variable {w w' : World} {lists : CellId → List Slot} {id : CellId} {elements : Array Slot}

theorem HasLists.keeps (h : w.HasLists lists) (hkeeps : w.Keeps w') : w'.HasLists lists :=
  fun id elements hp => h id elements (hkeeps.payload id _ hp)

theorem HasLists.sets (h : w.HasLists lists) (hsets : w.Sets id (.array elements) w') :
    w'.HasLists (Function.update lists id elements.toList) := by
  intro x others hp
  have hx := hsets.payload x _ hp
  by_cases he : x = id
  · rw [if_pos he] at hx
    cases hx
    rw [he, Function.update_self]
  · rw [if_neg he] at hx
    rw [Function.update_of_ne he]
    exact h x others hx

theorem HasLists.aside (h : w.HasLists lists) (hleaves : World.Leaves (· = .array) w w') :
    w'.HasLists lists :=
  fun id elements hp => h id elements (hleaves.payload id _ rfl hp)

/-- An assignment to an array and one to its list succeed together and leave the same elements, or fail
with the same fault. -/
theorem HasLists.assign_cases (h : w.HasLists lists)
    (hp : w.heap.payload? id = some (.array elements)) (key s : Slot) :
    (∃ l old, listAssign w (lists id) key s = .ok l ∧
      (Payload.array elements).assign w key s = .ok (.array l.toArray, old)) ∨
    ∃ fault, listAssign w (lists id) key s = .error fault ∧
      (Payload.array elements).assign w key s = .error fault := by
  have hassign := assign_array w elements key s
  rw [← h id elements hp] at hassign
  cases hl : listAssign w (lists id) key s with
  | error fault =>
    rw [hl] at hassign
    exact .inr ⟨fault, rfl, hassign⟩
  | ok l =>
    rw [hl] at hassign
    obtain ⟨old, hassign⟩ := hassign
    exact .inl ⟨l, old, rfl, hassign⟩

/-- An assignment does to the list what it does to the array. -/
theorem HasLists.assign (h : w.HasLists lists) (hp : w.heap.payload? id = some (.array elements))
    {key s : Slot} (hbecomes : Becomes w id ((Payload.array elements).assign w key s) w') :
    w'.HasLists (match (listAssign w (lists id) key s).toOption.map (id, ·) with
      | some (id, l) => Function.update lists id l
      | none => lists) := by
  rcases h.assign_cases hp key s with ⟨l, old, hl, hassign⟩ | ⟨fault, hl, hassign⟩
  · rw [hassign] at hbecomes
    rw [hl]
    exact h.sets hbecomes
  · rw [hassign] at hbecomes
    rw [hl]
    exact h.keeps hbecomes

theorem map_assign_array (h : w.HasLists lists) (hp : w.heap.payload? id = some (.array elements))
    (key s result : Slot) :
    ((Payload.array elements).assign w key s).map (fun _ => result) =
      (listAssign w (lists id) key s).map fun _ => result := by
  rcases h.assign_cases hp key s with ⟨l, old, hl, hassign⟩ | ⟨fault, hl, hassign⟩
  · rw [hassign, hl]
    rfl
  · rw [hassign, hl]
    rfl

end World

namespace ArrayOp

variable {on : Surroundings} {t : Limits} {keep : List Slot} {m : Machine}
  {lists : CellId → List Slot} {id : CellId} {elements : Array Slot}

theorem spec_act (hc : on.call.Safe t) (keep : List Slot) (op : ArrayOp) :
    Spec t True keep (Over op.needs keep) (op.act on keep.length) fun _ _ => True := by
  have hhost : ∀ (r : Request) (f : r.Reply → ArrayReply),
      Spec t True keep (Over 0 keep) (f <$> perform on keep.length r) fun _ _ => True :=
    fun r f => (over_perform hc r).map fun _ _ _ => trivial
  have hscript : ∀ {n : Nat} {x : Act Unit}, (Shifts t True n x fun _ => 1) →
      Spec t True keep (Over n keep) (ArrayReply.slot <$> valueOf x) fun _ _ => True :=
    fun hx => (spec_valueOf hx).map fun _ _ _ => trivial
  cases op with
  | create => exact hhost .createArray _
  | length id => exact hhost (.arrayLength ⟨some id⟩) _
  | get id i => exact hhost (.arrayGet ⟨some id⟩ i) _
  | set id i v => exact hhost (.arraySet ⟨some id⟩ i v) _
  | push id v => exact hhost (.arrayPush ⟨some id⟩ v) _
  | toList id => exact hhost (.arrayToList ⟨some id⟩) _
  | literal n => exact hscript (shifts_allocArray n)
  | read => exact hscript shifts_readMember
  | assign id key op => exact hscript (shifts_assignTo on.scope (.member (.cell id) key) op)
  | update id key grows returnsNew =>
    exact hscript (shifts_updateAt on.scope (.member (.cell id) key) grows returnsNew)

theorem answers_toList (hg : m.Good t keep) (hl : m.world.HasLists lists)
    (hv : m.world.visible? id = some (.array elements)) (hsize : elements.size ≤ maxCount) :
    ∃ m', (ArrayOp.toList id).act on keep.length m =
        .done (.values (.ok ((lists id).map m.world.image))) m' ∧ m'.world.HasLists lists := by
  have hp := hg.sound.counted.proper
  have hlist := hl id elements (World.payload?_of_visible hv)
  have hlength := viewLength_eq hp hv
  rw [Nat.min_eq_left hsize] at hlength
  have himages : (List.range' 0 elements.size).map
      (fun i => m.world.image (elements[i]?.getD .null)) = (lists id).map m.world.image := by
    rw [hlist]
    apply List.ext_getElem?
    intro i
    by_cases hi : i < elements.size <;> simp [hi]
  have hread : Turns m .none (arrayElements ⟨some id⟩ 0 elements.size) _ :=
    turns_arrayElements hp hv 0 elements.size (by omega)
  rw [himages] at hread
  have hrun : (ArrayOp.toList id).act on keep.length m =
      (ArrayReply.values <$> arrayElements ⟨some id⟩ 0 elements.size) m := by
    change ((viewLength ⟨some id⟩ >>= arrayElements ⟨some id⟩ 0) >>= fun r => _) m = _
    exact bind_congr (bind_done hlength)
  rw [hrun]
  exact hread.answers (fun _ _ h => h) _ fun _ => hl.keeps

theorem hasLists_install (hl : m.world.HasLists lists) (stack : List Slot) (elements : Array Slot) :
    (World.install { m.world with stack := stack } (.array elements)).HasLists
      (Function.update lists m.world.heap.next elements.toList) :=
  hl.sets (World.sets_install m.world stack (.array elements))

theorem answers_set {i : Nat} {v : Value} (hg : m.Good t keep) (hl : m.world.HasLists lists)
    (hw : m.world.writable? id = some (.array elements)) (hi : i ≤ maxCount)
    (hv : m.world.Fits v) :
    ∃ m', (ArrayOp.set id i v).act on keep.length m =
        .done ((ArrayOp.set id i v).answer m.world lists) m' ∧
      m'.world.HasLists ((ArrayOp.set id i v).next m.world lists) := by
  have hp := hg.sound.counted.proper
  have hpayload := World.payload?_of_writable hw
  have hlist := hl id elements hpayload
  by_cases hgap : i ≤ elements.size + maxElementGap
  · obtain ⟨elements', old, hput, -, hrun⟩ :=
      writeElement_fits hp hv hw hi (isWritable_iff.mpr hgap)
    rw [Payload.putElement_eq, if_pos hgap] at hput
    cases hput
    have hsets := World.sets_stored hpayload v.slot
      (.array (written elements.toList i v.slot).toArray) (elements[i]?.getD .null)
    simp only [answer, next, change?, hlist, Array.length_toList, if_pos hgap]
    exact ⟨_, map_done hrun ArrayReply.status, hl.sets hsets⟩
  · obtain ⟨m', hrun, hkeeps⟩ := writeElement_far hp hv hw hi hgap
    simp only [answer, next, change?, hlist, Array.length_toList, if_neg hgap]
    exact ⟨m', map_done hrun ArrayReply.status, hl.keeps hkeeps⟩

/-- The lists answer every operation as the machine does. -/
theorem answers (op : ArrayOp) (hg : m.Good t keep) (hl : m.world.HasLists lists)
    (hover : Over op.needs keep m.world.stack) (hready : op.Ready m.world) :
    ∃ m', op.act on keep.length m = .done (op.answer m.world lists) m' ∧
      m'.world.HasLists (op.next m.world lists) := by
  obtain ⟨hunlocked, hgiven, htarget⟩ := hready
  have hp := hg.sound.counted.proper
  have hsees : ∀ id ∈ op.target?, ∃ elements, elements.size ≤ maxCount ∧
      m.world.writable? id = some (.array elements) ∧
      m.world.visible? id = some (.array elements) ∧ lists id = elements.toList := by
    intro id hid
    obtain ⟨elements, hpayload, hsize⟩ := htarget id hid
    obtain ⟨hw, hv⟩ := hunlocked.sees hpayload
    exact ⟨elements, hsize, hw, hv, hl id elements hpayload⟩
  cases op with
  | create =>
    exact ⟨_, rfl, hasLists_install hl m.world.stack #[]⟩
  | literal n =>
    exact ⟨_, map_done (valueOf_done rfl) ArrayReply.slot, hasLists_install hl _ _⟩
  | length id =>
    obtain ⟨elements, hsize, -, hv, hlist⟩ := hsees id rfl
    refine ⟨m, (map_done (viewLength_eq hp hv) ArrayReply.length).trans ?_, hl⟩
    rw [answer, hlist, Array.length_toList, Nat.min_eq_left hsize]
  | get id i =>
    obtain ⟨elements, hsize, -, hv, hlist⟩ := hsees id rfl
    rw [answer, hlist, Array.getElem?_toList]
    by_cases hi : i ≤ maxCount
    · exact (turns_arrayElement hp hv hi).answers (fun _ _ h => h.1) ArrayReply.value
        fun _ => hl.keeps
    · have hnone : elements[i]? = none := Array.getElem?_eq_none (by omega)
      have hfar : arrayElement ⟨some id⟩ i = giveNull := if_neg hi
      have hread : Turns m .none (arrayElement ⟨some id⟩ i) fun r _ => r = .ok .null := by
        rw [hfar]
        exact (turns_push _).step (turns_pure _ rfl)
      rw [hnone]
      exact hread.answers (fun _ _ h => h) ArrayReply.value fun _ => hl.keeps
  | toList id =>
    obtain ⟨elements, hsize, -, hv, hlist⟩ := hsees id rfl
    exact answers_toList hg hl hv hsize
  | set id i v =>
    obtain ⟨elements, -, hw, -, -⟩ := hsees id rfl
    exact answers_set hg hl hw hgiven.1 hgiven.2
  | push id v =>
    obtain ⟨elements, -, hw, -, hlist⟩ := hsees id rfl
    have hsets := World.sets_stored (World.payload?_of_writable hw) v.slot
      (.array (elements.push v.slot)) .null
    refine ⟨_, map_done (appendElement_fits hp hgiven hw) ArrayReply.status, ?_⟩
    have hnext := hl.sets hsets
    rw [Array.toList_push, ← hlist] at hnext
    exact hnext
  | read id key =>
    obtain ⟨elements, -, -, hv, hlist⟩ := hsees id rfl
    obtain ⟨rest, hs⟩ := hgiven
    obtain ⟨m', hrun, hkeeps⟩ := readMember_eq hg hv hs
    refine ⟨m', (map_done hrun ArrayReply.slot).trans ?_, hl.keeps hkeeps⟩
    rw [answer, hlist, member_array]
  | assign id key op right =>
    obtain ⟨elements, -, hw, hv, hlist⟩ := hsees id rfl
    obtain ⟨hop, rest, hs⟩ := hgiven
    have hpayload := World.payload?_of_writable hw
    obtain ⟨m', hrun, hbecomes⟩ := assignTo_eq hg hw on.scope hop hs
    rw [member_array, ← hlist] at hrun hbecomes
    refine ⟨m', (map_done hrun ArrayReply.slot).trans ?_, hl.assign hpayload hbecomes⟩
    rw [World.map_assign_array hl hpayload]
    rfl
  | update id key grows returnsNew =>
    obtain ⟨elements, -, hw, hv, hlist⟩ := hsees id rfl
    obtain ⟨rest, hs⟩ := hgiven
    have hpayload := World.payload?_of_writable hw
    obtain ⟨m', hrun, hbecomes⟩ := updateAt_eq hg hw on.scope grows returnsNew hs
    rw [member_array, ← hlist] at hrun hbecomes
    refine ⟨m', (map_done hrun ArrayReply.slot).trans ?_, hl.assign hpayload hbecomes⟩
    rw [World.map_assign_array hl hpayload]
    rfl

end ArrayOp

/-! ## Histories -/

/-- The elements of the arrays. -/
def World.lists (w : World) (id : CellId) : List Slot :=
  match w.heap.payload? id with
  | some (.array elements) => elements.toList
  | _ => []

end Enclave
