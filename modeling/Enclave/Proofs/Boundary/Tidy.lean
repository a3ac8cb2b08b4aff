import Enclave.Proofs.Boundary.Entry
import Enclave.Proofs.Script.Tidy

/-! # Entry points are tidy

A record that is given out owes the block of its text, and so does the text of a run or of a list of
keys. Every other entry point has given back what it was handed when it answers.
-/
namespace Enclave

/-- The block that the text of a run lies in. -/
def textDue (t : Option TextRef) : List Nat :=
  (t.bind (·.block)).toList

namespace Record

theorem textBlock?_ofText (t : TextRef) : (ofText t).textBlock? = t.block := by
  simp [textBlock?, kind?, ofText, Kind.ofCode?_code]

/-- Only a text that is there can lie in a block. -/
theorem textBlock?_eq_none {r : Record}
    (h : ∀ t, r.kind? = some .string → r.text = some t → False) : r.textBlock? = none := by
  unfold textBlock?
  split
  · rename_i hkind
    cases htext : r.text with
    | none => rfl
    | some t => exact (h t hkind htext).elim
  · rfl

theorem textBlock?_of_text {r : Record} (h : r.text = none) : r.textBlock? = none :=
  textBlock?_eq_none fun t _ ht => by simp [h] at ht

end Record

/-- What an entry that gives out owes. -/
def Given.due (given : Given) : List Nat :=
  given.record.textBlock?.toList

namespace Act

open World (Compatible)

variable {rules : Rules} {held : List Guard} {due : List Nat} {on : Surroundings}

/-! ## Giving out -/

theorem tidy_allocText (s : String) :
    Tidy rules held [] (allocText s) fun t => t.block.toList := by
  have hmade : ∀ block, Tidy rules held [block]
      (pure ⟨Text.untilZero (Text.encode s), some block⟩)
      fun t : TextRef => t.block.toList := fun block => .pure _ rfl
  exact .alloc hmade

theorem tidy_giveOut (s : Slot) :
    Tidy rules held [] (giveOut s) fun r => r.textBlock?.toList := by
  refine .look (fun w => ?_) fun _ _ => rfl
  split
  · refine (tidy_allocText _).bind fun t => (tidy_push _).bind fun _ => .pure _ ?_
    rw [Record.textBlock?_ofText]
  · rename_i v hv
    refine (tidy_push _).bind fun _ => .pure _ ?_
    rw [Record.textBlock?_of_text, Option.toList_none]
    cases v with
    | string text => exact absurd rfl (hv text)
    | null | number | bool => rfl
  · refine (tidy_share _).bind fun _ => .pure _ ?_
    rw [Record.textBlock?_of_text rfl, Option.toList_none]

theorem tidy_giveNothing (status : Bool) :
    Tidy rules held [] (giveNothing status) Given.due :=
  (tidy_push _).bind fun _ => .pure _ rfl

theorem tidy_giveTop : Tidy rules held [] giveTop Given.due :=
  tidy_top fun s => (tidy_giveOut s).bind fun _ => (tidy_settle 1).bind fun _ => .pure _ rfl

theorem tidy_giveFrom (kind : Kind) (handle : Option CellId) (find : Payload → Option Slot) :
    Tidy rules [] [] (giveFrom kind handle find) Given.due := by
  refine .look (fun w => ?_) fun _ _ => rfl
  split
  · refine Neat.bind (Tidy.reading (World.compatible_nil _) (fun p => ?_)
      fun _ => .pure _ rfl) fun seen => ?_
    · exact (tidy_shareFound _).bind fun _ => .pure _ rfl
    · split
      · exact tidy_giveTop
      · exact tidy_giveNothing false
  · exact tidy_giveNothing false

theorem tidy_storeInto (kind : Kind) (handle : Option CellId) (v : Option Record)
    {exchange : Payload → Slot → Option (Payload × Slot)} (he : Payload.Reshapes exchange) :
    Neat rules [] (storeInto kind handle v exchange) := by
  refine .look (fun w => ?_) fun _ _ => rfl
  split
  · refine (tidy_share _).bind fun _ => tidy_top fun s => ?_
    refine Neat.bind (Tidy.writing (fun p => ?_) fun _ => .pure _ rfl)
      fun stored => ?_
    · split
      · exact (tidy_exchangePayload _ he).bind fun _ => .pure _ rfl
      · exact .pure _ rfl
    · exact tidy_drop.bind fun _ => .pure _ rfl
  · exact .pure _ rfl

/-! ## Scripts and globals -/

theorem tidy_runText (hc : on.call.Conducts rules) (running : Bool) (code : Option Text.Bytes) :
    Tidy rules [] [] (runText on running code) textDue := by
  unfold runText
  split
  · split
    · refine (tidy_runScript hc _).bind fun outcome => ?_
      cases outcome with
      | ok u =>
        refine tidy_top fun s => .look (fun w => ?_) fun w hw => ?_
        · exact (tidy_allocText _).bind fun t => tidy_drop.bind fun _ => .pure _ rfl
        · rw [World.display_unlocked hw]
      | error fault => exact (tidy_allocText _).map fun t => rfl
    · exact .pure _ rfl
  · exact .pure _ rfl

/-- A function that runs no closure of the engine can be made at any time. -/
theorem tidy_createNative {f : Option NativeFunction} (hf : ∀ i, f ≠ some (.closure (some i))) :
    Neat rules held (createNative f) := by
  cases f with
  | none => exact tidy_push _
  | some f =>
    have hfree : createNative (some f) =
        change (World.only (World.Provides f) (·.allocFunction f)) := by
      funext m
      have hprovides : World.Provides f m.world := fun i hi => absurd (congrArg some hi) (hf i)
      exact change_only hprovides (·.allocFunction f)
    rw [hfree]
    exact .change (.allocFunction f)

theorem tidy_registerNative (scope : ScopeId) (running : Bool) (name : Option Text.Bytes)
    {f : Option NativeFunction} (hf : ∀ i, f ≠ some (.closure (some i))) :
    Neat rules [] (registerNative scope running name f) := by
  unfold registerNative
  split
  · split
    · refine (tidy_createNative hf).bind fun _ => ?_
      exact (tidy_declare scope _).bind fun _ => .pure _ rfl
    · exact .pure _ rfl
  · exact .pure _ rfl

theorem tidy_dropThen {α : Type} (r : α) : Neat rules held (drop >>= fun _ => pure r) :=
  tidy_drop.bind fun _ => .pure _ rfl

theorem tidy_declareGlobal (scope : ScopeId) (running : Bool) (name : Option Text.Bytes)
    (v : Option Record) : Neat rules [] (declareGlobal scope running name v) := by
  unfold declareGlobal
  split
  · refine (tidy_consume _).bind fun _ => ?_
    split
    · split
      · exact (tidy_declare scope _).bind fun _ => .pure _ rfl
      · exact tidy_dropThen _
    · exact tidy_dropThen _
  · exact tidy_dropThen _

/-! ## Classes, arrays and objects -/

theorem tidy_createClass (running : Bool) (name : Option Text.Bytes) :
    Neat rules [] (createClass running name) := by
  unfold createClass
  split
  · split
    · exact .change (.allocClass _)
    · exact tidy_push _
  · exact tidy_push _

/-- What is done under a guard only matters in the world in which the access is in progress. -/
theorem accessing_congr {α : Type} {g : Guard} {x y refused : Act α} {m : Machine}
    (h : x (m.guard g) = y (m.guard g)) : accessing g x refused m = accessing g y refused m := by
  unfold Machine.guard at h
  unfold accessing
  rw [bind_done (world_eq m), bind_done (world_eq m)]
  split
  · unfold guarded
    rw [h]
  · rfl

theorem writing_congr {α : Type} {id : CellId} {x y : Payload → Act α} {refused : Act α} {m : Machine}
    (h : ∀ p, x p (m.guard ⟨.payload id, true⟩) = y p (m.guard ⟨.payload id, true⟩)) :
    writing id x refused m = writing id y refused m := by
  refine accessing_congr ?_
  rw [bind_done (world_eq _), bind_done (world_eq _)]
  cases (m.guard ⟨.payload id, true⟩).world.heap.payload? id with
  | none => rfl
  | some p => exact h p

/-- What becomes a method is a function. -/
theorem addMethod_function (id : CellId) (name : Text.Bytes) :
    addMethod (some id) (some name) = top >>= fun f => world >>= fun w =>
      if (w.cellOf? .function f.cell?).isSome ∧ w.heap.kind? id = some .classDesc then do
        let stored ← writing id
          (fun _ => do
            change (World.only World.OffersFunction
              (·.exchangePayload id (Payload.putMethod (readText name))))
            pure true)
          (pure false)
        drop
        pure stored
      else drop >>= fun _ => pure false := by
  funext m
  unfold addMethod
  rw [bind_done (top_eq m), bind_done (top_eq m), bind_done (world_eq m), bind_done (world_eq m)]
  cases hf : m.world.cellOf? .function m.world.top.cell? with
  | none => rfl
  | some f =>
    by_cases hk : m.world.heap.kind? id = some .classDesc
    · have hclass : m.world.cellOf? .classDesc (some id) = some id := by
        simp [World.cellOf?, hk]
      rw [hclass, if_pos ⟨rfl, hk⟩]
      refine bind_congr (writing_congr fun p => bind_congr (change_only ?_ _))
      exact Option.bind_eq_some_iff.mpr
        ⟨f, World.handle_of_cellOf? hf, World.kind?_of_cellOf? hf⟩
    · have hclass : m.world.cellOf? .classDesc (some id) = none := by
        simp [World.cellOf?, hk]
      rw [hclass, if_neg (fun h => hk h.2)]

theorem tidy_addMethod (handle : Option CellId) (name : Option Text.Bytes) :
    Neat rules [] (addMethod handle name) := by
  cases handle with
  | none =>
    refine tidy_top fun f => .look (fun w => ?_) fun _ _ => rfl
    split
    · rename_i hnone
      cases hnone
    · exact tidy_dropThen _
  | some id =>
    cases name with
    | none =>
      refine tidy_top fun f => .look (fun w => ?_) fun _ _ => rfl
      split
      · rename_i hnone _
        cases hnone
      · exact tidy_dropThen _
    | some name =>
      rw [addMethod_function]
      refine tidy_top fun f => .look (fun w => ?_) fun _ _ => rfl
      split
      · refine Neat.bind (Tidy.writing (fun p => ?_) fun _ => .pure _ rfl)
          fun stored => tidy_dropThen _
        exact (Tidy.change (.putMethod id _)).bind fun _ => .pure _ rfl
      · exact tidy_dropThen _

theorem tidy_arrayLength (handle : Option CellId) : Neat rules [] (arrayLength handle) := by
  refine .look (fun w => ?_) fun _ _ => rfl
  split
  · refine Tidy.reading (World.compatible_nil _) (fun p => ?_) fun _ => .pure _ rfl
    split <;> exact .pure _ rfl
  · exact .pure _ rfl

theorem tidy_arrayGet (handle : Option CellId) (index : Int) :
    Tidy rules [] [] (arrayGet handle index) Given.due :=
  tidy_giveFrom _ _ _

theorem tidy_arraySet (handle : Option CellId) (index : Int) (v : Option Record) :
    Neat rules [] (arraySet handle index v) := by
  unfold arraySet
  split
  · exact .pure _ rfl
  · exact tidy_storeInto _ _ _ (Payload.reshapes_putElement _)

theorem tidy_arrayPush (handle : Option CellId) (v : Option Record) :
    Neat rules [] (arrayPush handle v) :=
  tidy_storeInto _ _ _ Payload.reshapes_pushElement

theorem tidy_objectHas (handle : Option CellId) (key : Option Text.Bytes) :
    Neat rules [] (objectHas handle key) := by
  refine .look (fun w => ?_) fun _ _ => rfl
  split
  · exact Tidy.reading (World.compatible_nil _) (fun p => .pure _ rfl) fun _ => .pure _ rfl
  · exact .pure _ rfl

theorem tidy_objectGet (handle : Option CellId) (key : Option Text.Bytes) :
    Tidy rules [] [] (objectGet handle key) Given.due := by
  unfold objectGet
  split
  · exact tidy_giveFrom _ _ _
  · exact tidy_giveNothing _

theorem tidy_objectSet (handle : Option CellId) (key : Option Text.Bytes) (v : Option Record) :
    Neat rules [] (objectSet handle key v) := by
  unfold objectSet
  split
  · exact tidy_storeInto _ _ _ (Payload.reshapes_putProperty _)
  · exact .pure _ rfl

theorem tidy_objectKeys (handle : Option CellId) :
    Tidy rules [] [] (objectKeys handle) fun t => t.block.toList := by
  refine .look (fun w => ?_) fun _ _ => rfl
  split
  · refine Neat.bind (Tidy.reading (World.compatible_nil _) (fun p => ?_)
      fun _ => .pure _ rfl) fun keys => tidy_allocText _
    exact .pure _ rfl
  · exact Neat.bind (.pure _ rfl) fun keys => tidy_allocText _

/-! ## Calls and tasks -/

theorem tidy_borrowAll (records : List Record) : Neat rules [] (borrowAll records) := by
  induction records with
  | nil =>
    rw [borrowAll]
    exact .pure _ rfl
  | cons r rest ih =>
    rw [borrowAll]
    exact (tidy_share _).bind fun _ => tidy_top fun s => ih.bind fun more => .pure _ rfl

theorem tidy_callFunction {call : Caller} (hc : call.Conducts rules) (running : Bool)
    (handle : Option CellId) (argc : Int) (argv : Option (List Record))
    (receiver : Option Record) :
    Tidy rules [] [] (callFunction call running handle argc argv receiver) Given.due := by
  refine .look (fun w => ?_) fun _ _ => rfl
  split
  · split
    · exact tidy_giveNothing false
    · refine tidy_height fun base => (tidy_borrowAll _).bind fun args => ?_
      refine (tidy_borrowAll _).bind fun receivers => (tidy_share _).bind fun _ => ?_
      refine tidy_top fun callee => ?_
      refine (tidy_callSlot hc _ _ _).recover.bind fun outcome => ?_
      cases outcome with
      | ok u => exact tidy_giveTop.bind fun given => (tidy_settleTo base).bind fun _ => .pure _ rfl
      | error fault => exact (tidy_unwind base).bind fun _ => tidy_giveNothing false
  · exact tidy_giveNothing false

theorem tidy_createTask (v : Option Record) : Neat rules [] (createTask v) := by
  unfold createTask
  split
  · exact (tidy_share _).bind fun _ => .change .allocTask
  · exact tidy_push _

theorem tidy_taskResult (handle : Option CellId) :
    Tidy rules [] [] (taskResult handle) Given.due :=
  tidy_giveFrom _ _ _

end Act
end Enclave
