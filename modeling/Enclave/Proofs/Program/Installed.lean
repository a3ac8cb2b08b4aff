import Enclave.Proofs.Shared.Objects
import Enclave.Proofs.Program.Readings

/-! # What the program installs

Before a script runs, the program installs a function and the class of counters, one closure, one function
or one global at a time. What is there in the end is a machine in order.
-/
namespace Enclave

open Act Text

namespace Program

/-- How far the program has got: the heap, the globals, the closures and the stack. -/
def stage (heap : Heap) (globals : Table Slot) (closures : Array Binding) (stack : List Slot) : Machine :=
  ⟨{ World.initial .default with
    heap := heap
    scopes := #[some globals]
    engine := ⟨.default, 0, closures, true⟩
    stack := stack }, []⟩

section Stages

variable {heap : Heap} {globals methods : Table Slot} {closures : Array Binding} {rest : List Slot}
  {on : Surroundings} {name label : String} {s : Slot} {id f : CellId} {kind : Kind} {t : Limits}

theorem releaseSlots_null (h : Heap) : h.releaseSlots [.null] = h :=
  Heap.releaseSlots_scalar h .null

/-- The newest entry becomes the value of a new global. -/
theorem declare_stage (hnew : globals.get? name = none) :
    declare 0 name (stage heap globals closures (s :: rest)) =
      .done () (stage heap (globals.put name s) closures rest) := by
  have hopen : (stage heap globals closures (s :: rest)).world.canWrite (.scope 0) = true := rfl
  have hs : (stage heap globals closures (s :: rest)).world.stack = s :: rest := rfl
  rw [declare_eq, if_pos hopen, World.drop_exchangeGlobal name hs rfl, hnew, Option.getD_none,
    releaseSlots_null]
  rfl

/-- A function for a new closure becomes the value of a new global. -/
theorem registerClosure_stage (hscope : on.scope = 0) (hname : IsPlain name) (hsome : name.isEmpty = false)
    (hnew : globals.get? name = none) (body : HostFunction) :
    registerClosure on 0 name none [] body (stage heap globals closures rest) =
      .done (.ok ()) (stage (heap.alloc (.function (.closure (some closures.size))))
        (globals.put name (.cell heap.next)) (closures.push ⟨none, [], body⟩) rest) := by
  have hsent : sentName name = .ok (encode name) := by
    rw [sentName, hsome, sentText_plain hname]
    rfl
  unfold registerClosure
  rw [hsent, hscope]
  let m : Machine := stage (heap.alloc (.function (.closure (some closures.size)))) globals
    (closures.push ⟨none, [], body⟩) (.cell heap.next :: rest)
  change ((declare 0 (readText (encode name)) >>= fun _ => pure true) >>= confirm .register) m = _
  rw [readText_encode, cut_eq_self hname, bind_bind, bind_done (declare_stage hnew)]
  rfl

/-- A function for a new closure is the newest entry. -/
theorem createClosure_stage (body : HostFunction) :
    createClosure 0 none [] body (stage heap globals closures rest) =
      .done ⟨some heap.next⟩ (stage (heap.alloc (.function (.closure (some closures.size)))) globals
        (closures.push ⟨none, [], body⟩) (.cell heap.next :: rest)) :=
  rfl

theorem createClass_stage (hname : IsPlain name) :
    createClass true (some (encode name)) (stage heap globals closures rest) =
      .done () (stage (heap.alloc (.classDesc name [])) globals closures (.cell heap.next :: rest)) := by
  change change (·.allocClass (readText (encode name))) _ = _
  rw [readText_encode, cut_eq_self hname]
  rfl

/-- The newest entry becomes a new method of a class. -/
theorem installMethod_stage (hp : heap.Proper) (hf : heap.kind? f = some .function)
    (hclass : heap.payload? id = some (.classDesc label methods)) (hname : IsPlain name)
    (hnew : methods.get? name = none) :
    installMethod 0 ⟨some id⟩ name ⟨some f⟩ (stage heap globals closures (.cell f :: rest)) =
      .done (.ok ()) (stage (heap.setPayload id (.classDesc label (methods.put name (.cell f)))) globals
        closures rest) := by
  have hsecure : (stage heap globals closures (.cell f :: rest)).world.secure 0 (.cell f) =
      (stage heap globals closures (.cell f :: rest)).world := by
    simp [World.secure, World.secureUnder, World.above, World.lift, stage, Slot.cell?, List.findIdx?_cons]
  have hs : (stage heap globals closures (.cell f :: rest)).world.stack = .cell f :: rest := rfl
  have hadd := addMethod_eq (m := stage heap globals closures (.cell f :: rest)) hp hs hf hclass hname
  rw [hnew, Option.getD_none, releaseSlots_null] at hadd
  unfold installMethod
  rw [sentText_plain hname]
  change (addMethod (some id) (some (encode name)) >>= confirm .addMethod)
    { stage heap globals closures (.cell f :: rest) with
      world := (stage heap globals closures (.cell f :: rest)).world.secure 0 (.cell f) } = _
  rw [hsecure]
  exact (bind_done hadd).trans rfl

/-- The newest entry becomes the value of a new global, with a host's handle for it. -/
theorem declareTop_stage (hscope : on.scope = 0) (hk : kind.isHandle = true) (hname : IsPlain name)
    (hnew : globals.get? name = none) :
    declareTop on name (.handle kind id) (stage heap globals closures (.cell id :: rest)) =
      .done (.ok ()) (stage heap (globals.put name (.cell id)) closures rest) := by
  have hs : (stage heap globals closures (.cell id :: rest)).world.stack =
      (Value.handle kind id).slot :: rest := rfl
  rw [declareTop_sent hs rfl (Record.slot_ofHandle hk id) hname, hscope, bind_done (declare_stage hnew)]
  rfl

end Stages

/-! ## What there is when a script begins to run -/

/-- A heap that has allocated so many cells and done nothing else. -/
def fresh (cells : List Cell) : Heap :=
  ⟨(cells.map some).toArray, ⟨cells.length, 0, 0, 0⟩⟩

def native (place : Nat) : Cell :=
  ⟨1, .function, .function (.closure (some place))⟩

def counters (methods : Table Slot) : Cell :=
  ⟨1, .classDesc, .classDesc className methods⟩

/-- How far the program has got since it installed the function that adds. -/
def installing (cells : List Cell) (closures : List HostFunction) (stack : List Slot) : Machine :=
  stage (fresh (native 0 :: cells)) [("hostAdd", .cell 0)]
    ((Stock.addTwo.body :: closures).map (⟨none, [], ·⟩)).toArray stack

/-- A function becomes another method of the class. -/
theorem installMethod_installing {methods : Table Slot} {cells : List Cell} {closures : List HostFunction}
    {rest : List Slot} {name : String} {f : CellId} {t : Limits}
    (hg : (installing (counters methods :: cells) closures (.cell f :: rest)).Good t [])
    (hf : (fresh (native 0 :: counters methods :: cells)).kind? f = some .function)
    (hname : IsPlain name) (hnew : methods.get? name = none) :
    installMethod 0 ⟨some classCell⟩ name ⟨some f⟩
        (installing (counters methods :: cells) closures (.cell f :: rest)) =
      .done (.ok ()) (installing (counters (methods.put name (.cell f)) :: cells) closures rest) := by
  have hclass : (fresh (native 0 :: counters methods :: cells)).payload? classCell =
      some (.classDesc className methods) := by
    simp [fresh, counters, Heap.payload?, Heap.cell?, classCell]
  have hheap : (fresh (native 0 :: counters methods :: cells)).setPayload classCell
      (.classDesc className (methods.put name (.cell f))) =
        fresh (native 0 :: counters (methods.put name (.cell f)) :: cells) := by
    simp [fresh, counters, Heap.setPayload, Heap.cell?, Heap.setCell, classCell]
  have hp : (fresh (native 0 :: counters methods :: cells)).Proper := hg.sound.counted.proper
  refine (installMethod_stage hp hf hclass hname hnew).trans ?_
  rw [hheap]
  rfl

/-- The closures of the class. -/
def closures : List HostFunction :=
  [(Stock.storingNumber countKey).body, (Stock.counting countKey).body]

def ready : Machine :=
  stage (fresh [native 0, counters methods, native makerPlace, native counterPlace])
    [("hostAdd", .cell 0), (className, .cell classCell)] engine.bindings []

/-- After an act that has a specification the machine is good. -/
theorem good_after {t : Limits} {α : Type} {x : Act α} {n : Nat} {Q : α → List Slot → Prop} {r : α}
    {m m' : Machine} (hg : m.Good t []) (hx : Spec t True [] (Over n []) x Q)
    (hn : n ≤ m.world.stack.length) (hrun : x m = .done r m') : m'.Good t [] :=
  (hx.after hg ⟨List.nil_suffix, by simpa using hn⟩ hrun).1

/-- What the program installs leaves the machine ready, and good. -/
theorem install_ready {on : Surroundings} (hscope : on.scope = 0) :
    install on 0 ⟨.initial .default, []⟩ = .done (.ok ()) ready ∧
      ready.Good ⟨0, False, [], True⟩ [] := by
  have hname : IsPlain className := by decide
  have h₁ : registerClosure on 0 "hostAdd" none [] Stock.addTwo.body ⟨.initial .default, []⟩ =
      .done (.ok ()) (installing [] [] []) :=
    registerClosure_stage hscope (by decide) (by decide) rfl _
  have hg₁ := good_after (Machine.good_initial .default False True) (over_registerClosure _ _ _ _)
    (Nat.zero_le _) h₁
  have h₂ : createClass true (some (encode className)) (installing [] [] []) =
      .done () (installing [counters []] [] [.cell classCell]) :=
    createClass_stage hname
  have hg₂ := good_after hg₁ (shifts_createClass _ _ []) (Nat.zero_le _) h₂
  -- The constructor.
  have h₃ : createClosure 0 none [] (Stock.storingNumber countKey).body
      (installing [counters []] [] [.cell classCell]) = .done ⟨some makerCell⟩
        (installing [counters [], native makerPlace] (closures.take 1)
          [.cell makerCell, .cell classCell]) :=
    createClosure_stage _
  have hg₃ := good_after hg₂ (over_createClosure _ _ _) (Nat.zero_le _) h₃
  have h₄ : installMethod 0 ⟨some classCell⟩ constructorName ⟨some makerCell⟩
      (installing [counters [], native makerPlace] (closures.take 1) [.cell makerCell, .cell classCell]) =
      .done (.ok ()) (installing [counters [(constructorName, .cell makerCell)], native makerPlace]
        (closures.take 1) [.cell classCell]) :=
    installMethod_installing hg₃ rfl (by decide) rfl
  have hg₄ := good_after hg₃ (over_installMethod _ _ _) (Nat.zero_le _) h₄
  -- The method that counts up.
  have h₅ : createClosure 0 none [] (Stock.counting countKey).body
      (installing [counters [(constructorName, .cell makerCell)], native makerPlace] (closures.take 1)
        [.cell classCell]) = .done ⟨some counterCell⟩
          (installing [counters [(constructorName, .cell makerCell)], native makerPlace,
            native counterPlace] closures [.cell counterCell, .cell classCell]) :=
    createClosure_stage _
  have hg₅ := good_after hg₄ (over_createClosure _ _ _) (Nat.zero_le _) h₅
  have h₆ : installMethod 0 ⟨some classCell⟩ methodName ⟨some counterCell⟩
      (installing [counters [(constructorName, .cell makerCell)], native makerPlace,
        native counterPlace] closures [.cell counterCell, .cell classCell]) =
      .done (.ok ()) (installing [counters methods, native makerPlace, native counterPlace]
        closures [.cell classCell]) :=
    installMethod_installing hg₅ rfl (by decide) rfl
  have hg₆ := good_after hg₅ (over_installMethod _ _ _) (Nat.zero_le _) h₆
  have h₇ : declareTop on className (.handle .classDesc classCell) (installing [counters methods,
      native makerPlace, native counterPlace] closures [.cell classCell]) =
      .done (.ok ()) ready :=
    declareTop_stage hscope rfl hname rfl
  refine ⟨?_, good_after hg₆ (shifts_declareTop _ _ []) (Nat.le_refl 1) h₇⟩
  have hclass : makeCounter 0 (installing [] [] []) = .done (.ok ⟨some classCell⟩)
      (installing [counters methods, native makerPlace, native counterPlace] closures
        [.cell classCell]) := by
    refine (bind_done h₂).trans ((bind_done rfl).trans ((bind_done h₃).trans ?_))
    exact (bind_done h₄).trans ((bind_done h₅).trans ((bind_done h₆).trans rfl))
  exact (bind_done h₁).trans ((bind_done hclass).trans ((bind_done rfl).trans h₇))

/-- A machine that is ready is in order. -/
theorem ready_counts : ready.Counts := by
  refine ⟨⟨rfl, rfl⟩, rfl, fun x s hs => ?_, by decide, fun id p hp => ?_, ?_⟩
  · have hglobal : Table.get? [("hostAdd", Slot.cell 0), (className, .cell classCell)] x = some s := hs
    simp only [Table.get?] at hglobal
    split at hglobal
    · cases hglobal
      exact Slot.public_cell (.inl (by decide))
    · split at hglobal
      · cases hglobal
        exact Slot.public_cell (.inl (by decide))
      · cases hglobal
  · rcases id with _ | _ | _ | _ | id <;> cases hp
    · exact .plain (.inl rfl) rfl fun s hs => by cases hs
    · exact .counters
    · exact .maker
    · exact .counter
  · intro place id _ hnoted
    exact absurd rfl hnoted

end Program
end Enclave
