import Enclave.Proofs.Script.Calls
import Enclave.Proofs.World.Kept

/-! # Instances

A script that makes an instance looks up what the class has for a constructor before it makes the
object, and calls it with the new object for receiver. The two stand on the stack one above the other.
-/
namespace Enclave

open Act

namespace World

variable {w : World} {id classId : CellId} {name key : String} {methods : Table Slot} {s : Slot}

theorem alive_of_method (hp : w.heap.Proper)
    (hv : w.visible? classId = some (.classDesc name methods)) (hfound : methods.get? key = some s) :
    w.Alive s := by
  have hmem : s ∈ (Payload.classDesc name methods).slots := Table.mem_values_of_get? hfound
  exact alive_of_mem_visible hp hv hmem

theorem alive_methodOr (hp : w.heap.Proper)
    (hv : w.visible? classId = some (.classDesc name methods)) (key : String) :
    w.Alive ((methods.get? key).getD .null) :=
  alive_found_visible hp hv fun _ => Table.mem_values_of_get?

theorem stack_allocInstance (w : World) (classId : CellId) :
    (w.allocInstance classId).stack = .cell w.heap.next :: w.stack := by
  unfold allocInstance
  split
  · exact congrArg (fun n => Slot.cell n :: w.stack) (Heap.next_retainSlot w.heap (.cell classId))
  · rfl

/-- Under a new instance stands its constructor. -/
theorem stack_construct (halive : w.Alive s) (classId : CellId) :
    ((w.share s).allocInstance classId).stack = .cell w.heap.next :: s :: w.stack := by
  rw [stack_allocInstance, share_alive halive]
  exact congrArg (fun n => Slot.cell n :: _) (Heap.next_retainSlot w.heap s)

/-- A new instance is a new object and leaves the other payloads as they are. -/
theorem construct_install (halive : w.Alive s) {p : Payload}
    (hp : w.heap.payload? classId = some p) :
    ∃ u : World, w.Keeps u ∧ u.heap.next = w.heap.next ∧
      (w.share s).allocInstance classId = u.install (.object [] (some classId)) := by
  let u : World := { w.share s with heap := (w.share s).heap.retain classId }
  have hpayload : (w.share s).heap.payload? classId = some p := by
    rw [share_alive halive]
    exact (Heap.payload?_retainSlot _ _ _).trans hp
  have hlive : (w.share s).heap.isLive classId = true := Heap.isLive_of_payload? hpayload
  have hnext : u.heap.next = w.heap.next := by
    have hretain : u.heap.next = (w.share s).heap.next := Heap.next_retainSlot _ (.cell classId)
    rw [hretain, share_alive halive]
    exact Heap.next_retainSlot w.heap s
  have hkeeps : (w.share s).Keeps u :=
    ⟨Heap.later_retain _ classId, fun x _ hx =>
      (Heap.payload?_retainSlot _ (.cell classId) x).symm.trans hx⟩
  refine ⟨u, (keeps_share w s).trans hkeeps, hnext, ?_⟩
  rw [allocInstance, if_pos hlive]

end World

namespace Act

variable {t : Limits} {m : Machine} {id classId : CellId} {name : String} {methods : Table Slot}

/-- A new instance of a class, with the constructor that the class has at that time. -/
def instantiate (id : CellId) : Act (Option Slot × Slot) := do
  let found ← reading id
    (fun
      | .classDesc _ methods => do
        shareFound (methods.get? constructorName)
        pure (methods.has constructorName)
      | _ => do
        push .null
        pure false)
    (do
      push .null
      pure false)
  let constructor ← top
  change (·.allocInstance id)
  let made ← top
  pure (if found then some constructor else none, made)

/-- A script that makes an instance goes on to call the constructor, if there is one. -/
theorem construct_instantiate (call : Caller) (args : List Slot)
    (hkind : m.world.kindOf (.cell id) = .classDesc) :
    construct call (.cell id) args m =
      (instantiate id >>= fun r => do
        match r.1 with
        | some constructor => do
          callSlot call constructor (some r.2) args
          drop
          settle 1
        | none => settle 1) m := by
  unfold construct instantiate
  rw [bind_done (world_eq m)]
  dsimp only
  rw [if_pos hkind]
  simp only [bind_bind]
  refine congrFun (congrArg (Bind.bind _) (funext fun found => ?_)) m
  cases found <;> rfl

theorem instantiate_eq (hp : m.world.heap.Proper)
    (hv : m.world.visible? classId = some (.classDesc name methods)) :
    instantiate classId m = .done (methods.get? constructorName, .cell m.world.heap.next)
      { m with world :=
        (m.world.share ((methods.get? constructorName).getD .null)).allocInstance classId } := by
  obtain ⟨constructor, hconstructor⟩ :
      ∃ s, (methods.get? constructorName).getD .null = s := ⟨_, rfl⟩
  have halive : m.world.Alive constructor :=
    hconstructor ▸ World.alive_methodOr hp hv constructorName
  let m₁ : Machine := { m with world := m.world.share constructor }
  let m₂ : Machine := { m with world := m₁.world.allocInstance classId }
  have hread : reading classId
      (fun
        | .classDesc _ methods => do
          shareFound (methods.get? constructorName)
          pure (methods.has constructorName)
        | _ => do
          push .null
          pure false)
      (do
        push .null
        pure false) m = .done (methods.has constructorName) m₁ := by
    rw [reading_visible hv ((unguarded_share _).then_pure _ _ _)]
    change Outcome.done _
      { m with world := m.world.share ((methods.get? constructorName).getD .null) } = _
    rw [hconstructor]
  have htop : m₁.world.top = constructor :=
    World.top_of_stack (congrArg World.stack (World.share_alive halive))
  have hmade : m₂.world.top = .cell m.world.heap.next :=
    World.top_of_stack (World.stack_construct halive classId)
  have hfound : (if methods.has constructorName then some constructor else none) =
      methods.get? constructorName := by
    rw [← hconstructor, Table.has]
    cases methods.get? constructorName <;> rfl
  have halloc : change (·.allocInstance classId) m₁ = .done () m₂ := rfl
  unfold instantiate
  rw [bind_done hread, bind_done (top_eq m₁), bind_done halloc, bind_done (top_eq m₂), htop, hmade,
    hfound, hconstructor]
  rfl

/-- A constructor that a class has stands under the new instance when it is called. -/
theorem construct_eq (call : Caller) (slots : List Slot) (hp : m.world.heap.Proper)
    (hv : m.world.visible? classId = some (.classDesc name methods))
    (hfound : methods.get? constructorName = some (.cell id)) :
    construct call (.cell classId) slots m =
      (callSlot call (.cell id) (some (.cell m.world.heap.next)) slots >>= fun _ => do
        drop
        settle 1)
        { m with world := (m.world.share (.cell id)).allocInstance classId } := by
  have hmade := instantiate_eq hp hv
  rw [hfound] at hmade
  rw [construct_instantiate call slots (World.kindOf_of_visible hp hv), bind_done hmade]
  rfl

theorem spec_instantiate (keep : List Slot) (id : CellId) :
    Spec t True keep (Over 0 keep) (instantiate id) fun _ _ => True := by
  have hread : ∀ (p : Payload), Spec t True keep (Over 0 keep)
      (match p with
        | .classDesc _ methods => do
          shareFound (methods.get? constructorName)
          pure (methods.has constructorName)
        | _ => do
          push .null
          pure false) fun _ => Over 0 keep := by
    intro p
    split
    · exact (shifts_shareFound _).bind (Nat.zero_le _) fun _ => over_pure _ (Nat.zero_le _)
    · exact (shifts_push _).bind (Nat.zero_le _) fun _ => over_pure _ (Nat.zero_le _)
  have hnone : Spec t True keep (Over 0 keep) (push .null >>= fun _ => pure false)
      fun _ => Over 0 keep :=
    (shifts_push _).bind (Nat.zero_le _) fun _ => over_pure _ (Nat.zero_le _)
  refine (Spec.reading hread hnone id).bind fun found => spec_top fun constructor => ?_
  refine (shifts_allocInstance id).bind (Nat.zero_le _) fun _ => spec_top fun made => ?_
  exact spec_pure _ fun _ _ => trivial

end Act
end Enclave
