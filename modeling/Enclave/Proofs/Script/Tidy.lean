import Enclave.Proofs.Act.Way
import Enclave.Proofs.Boundary.Transfer
import Enclave.Proofs.Script.Instances
import Enclave.Proofs.Script.Keys

/-! # Evaluation is tidy

Scripts touch text blocks only where they take over what a call returns. An access to a payload or a
scope is over before anything is called, and what is beneath it is no more than another shared access.
By induction on the tree, for any way to call native functions that is orderly itself.
-/
namespace Enclave

open Act
open World (Compatible Deed)

/-- A caller is orderly when its calls owe the block of their result and nothing else. -/
def Caller.Orderly (terms : Terms) (call : Caller) : Prop :=
  ∀ callee f argc argv receiver,
    Act.Tidy terms [] [] (call callee f argc argv receiver) fun r => r.textBlock?.toList

/-- The same of the calls that are made while something runs: those of no function cell, and those by way
of one that lend slots. -/
structure Caller.Conducts (rules : Rules) (call : Caller) : Prop where
  apart : ∀ f argc argv receiver,
    Act.Tidy rules [] [] (call none f argc argv receiver) fun r => r.textBlock?.toList
  lent : ∀ callee f receiver args,
    Act.Tidy rules [] [] (through callee f fun w =>
      call (some callee) f (List.length args) (some (args.map w.lend)) (Option.map w.lend receiver))
      fun r => r.textBlock?.toList

theorem Caller.Orderly.conducts {terms : Terms} {call : Caller} (hc : call.Orderly terms) :
    call.Conducts terms :=
  ⟨hc none, fun _ _ _ _ => .look (fun w => by
    split
    · exact hc _ _ _ _ _
    · exact .exhausted) fun _ _ => rfl⟩

namespace Act

variable {α : Type} {rules : Rules} {held : List Guard} {due : List Nat} {owes : α → List Nat}
  {call : Caller}

/-! ## Property access -/

theorem Tidy.reading {x : Payload → Act α} {refused : Act α} {id : CellId}
    (hg : Compatible ⟨.payload id, false⟩ held)
    (hx : ∀ p, Tidy rules (⟨.payload id, false⟩ :: held) due (x p) owes)
    (hr : ∀ held, Tidy rules held due refused owes) :
    Tidy rules held due (reading id x refused) owes := by
  refine .accessing hg (.look (fun w => ?_) fun _ _ => rfl) (hr _)
  split
  · exact hx _
  · exact hr _

theorem Tidy.writing {x : Payload → Act α} {refused : Act α} {id : CellId}
    (hx : ∀ p, Tidy rules [⟨.payload id, true⟩] due (x p) owes)
    (hr : ∀ held, Tidy rules held due refused owes) :
    Tidy rules [] due (writing id x refused) owes := by
  refine .accessing (World.compatible_nil _) (.look (fun w => ?_) fun _ _ => rfl) (hr _)
  split
  · exact hx _
  · exact hr _

theorem tidy_exchangePayload (id : CellId) {f : Payload → Slot → Option (Payload × Slot)}
    (hf : Payload.Reshapes f) :
    Tidy rules held due (change (·.exchangePayload id f)) fun _ => due :=
  .change (.exchangePayload id hf)

/-- Where the condition holds it makes no difference to a change. -/
theorem change_only {P : World → Prop} [DecidablePred P] {m : Machine} (h : P m.world)
    (f : World → World) : change f m = change (World.only P f) m := by
  unfold change
  rw [World.only_of h]

theorem tidy_shareFound (found : Option Slot) :
    Tidy rules held due (shareFound found) fun _ => due :=
  tidy_share _

/-- The class is read while the object is: both accesses are shared. -/
theorem tidy_readProperty (id : CellId) (properties : Table Slot) (classLink : Option CellId)
    (name : String) :
    Neat rules [⟨.payload id, false⟩] (readProperty properties classLink name) := by
  unfold readProperty
  split
  · exact tidy_share _
  · split
    · exact tidy_push _
    · rename_i classId
      have hg : Compatible ⟨.payload classId, false⟩ [⟨.payload id, false⟩] := by
        simp [Compatible]
      refine Tidy.reading hg (fun p => ?_) fun _ => tidy_push _
      split
      · exact tidy_shareFound _
      · exact tidy_push _

theorem tidy_getMember (target key : Slot) : Neat rules [] (getMember target key) := by
  refine .look (fun w => ?_) fun w hw => ?_
  · dsimp only
    split
    · exact .raise _
    · split <;> exact tidy_push _
    · exact tidy_push _
    · refine Tidy.reading (World.compatible_nil _) (fun p => ?_) fun _ => tidy_push _
      split
      · split
        · exact tidy_push _
        · exact tidy_shareFound _
      · exact tidy_readProperty _ _ _ _
      · split <;> exact tidy_push _
      · split
        · exact tidy_share _
        · exact tidy_push _
      · exact tidy_push _
  · simp only [World.propertyName_unlocked hw]

theorem tidy_setMember (target key : Slot) : Neat rules [] (setMember target key) := by
  refine .look (fun w => ?_) fun w hw => ?_
  · dsimp only
    split
    · exact .raise _
    · refine .bind (Tidy.writing (fun p => ?_) fun _ => .raise _) fun _ => tidy_drop
      split
      · split
        · exact .raise _
        · split
          · exact tidy_exchangePayload _ (Payload.reshapes_putElement _)
          · exact .raise _
      · exact tidy_exchangePayload _ (Payload.reshapes_putProperty _)
      · exact .raise _
  · simp only [World.propertyName_unlocked hw]
    rfl

/-! ## Globals and places -/

theorem tidy_copyGlobal (scope : ScopeId) (name : String) :
    Neat rules [] (copyGlobal scope name) := by
  refine .surely (World.compatible_nil _) (.look (fun w => ?_) fun _ _ => rfl)
  split
  · exact (tidy_share _).bind fun _ => .pure _ rfl
  · exact .pure _ rfl

theorem tidy_loadGlobal (scope : ScopeId) (name : String) :
    Neat rules [] (loadGlobal scope name) := by
  refine (tidy_copyGlobal scope name).bind fun found => ?_
  split
  · exact .pure _ rfl
  · exact .raise _

theorem tidy_declare (scope : ScopeId) (name : String) :
    Tidy rules [] due (declare scope name) fun _ => due :=
  (Tidy.surely (World.compatible_nil _) (.change (.exchangeGlobal scope name))).bind fun _ =>
    tidy_drop

theorem tidy_storeGlobal (scope : ScopeId) (name : String) :
    Neat rules [] (storeGlobal scope name) := by
  refine (tidy_copyGlobal scope name).bind fun found => ?_
  split
  · exact tidy_drop.bind fun _ => tidy_declare scope name
  · exact .raise _

theorem tidy_load (scope : ScopeId) (place : Location) :
    Neat rules [] (load scope place) := by
  cases place with
  | «global» name => exact tidy_loadGlobal scope name
  | member target key => exact tidy_getMember target key

theorem tidy_store (scope : ScopeId) (place : Location) :
    Neat rules [] (store scope place) := by
  cases place with
  | «global» name => exact tidy_storeGlobal scope name
  | member target key => exact tidy_setMember target key

/-! ## Calls -/

theorem tidy_nativeOf (s : Slot) : Neat rules [] (nativeOf s) := by
  unfold nativeOf
  split
  · exact .pure _ rfl
  · refine Tidy.reading (World.compatible_nil _) (fun p => ?_) fun _ => .pure _ rfl
    split <;> exact .pure _ rfl

theorem tidy_consume (r : Record) : Tidy rules held due (consume r) fun _ => due := by
  unfold consume
  split
  · exact .pure _ rfl
  · exact tidy_drop.bind fun _ => tidy_push _

theorem tidy_freeText (block : Option Nat) :
    Tidy rules held block.toList (freeText block) fun _ => [] := by
  cases block with
  | none => exact .pure () rfl
  | some b => exact .free b

/-- What a call returns is taken over together with its block. -/
theorem tidy_adoptReturn (r : Record) :
    Tidy rules held r.textBlock?.toList (adoptReturn r) fun _ => [] :=
  (tidy_consume r).bind fun _ => tidy_freeText _

/-- The function that is found for a cell is what it holds. -/
theorem nativeOf_held {id : CellId} {f : NativeFunction} {m m' : Machine}
    (h : nativeOf (.cell id) m = .done (some f) m') :
    m'.world.heap.payload? id = some (.function f) := by
  rw [nativeOf_run] at h
  injection h with hf hm
  subst hm
  exact World.payload?_of_visible (World.native?_eq_some_iff.mp hf)

/-- What is called by way of a function cell is what the cell holds. -/
theorem callSlot_through (call : Caller) (id : CellId) (receiver : Option Slot) (args : List Slot) :
    callSlot call (.cell id) receiver args = nativeOf (.cell id) >>= fun found =>
      found.elim (world >>= fun w => raise (.notFunction (w.display (.cell id)))) fun f =>
        through id f (fun w =>
          call (some id) f args.length (some (args.map w.lend)) (receiver.map w.lend)) >>=
            adoptReturn := by
  funext m
  refine bind_congr_done fun found m' h => ?_
  cases found with
  | none => rfl
  | some f =>
    have hcall := through_held (nativeOf_held h) (x := fun w =>
      call (some id) f args.length (some (args.map w.lend)) (receiver.map w.lend))
    exact (bind_congr hcall).symm

theorem tidy_callSlot (hc : call.Conducts rules) (callee : Slot) (receiver : Option Slot)
    (args : List Slot) : Neat rules [] (callSlot call callee receiver args) := by
  have hraise : Neat rules []
      (world >>= fun w => raise (.notFunction (w.display callee)) : Act Unit) :=
    .look (fun w => .raise _) fun w hw => by rw [World.display_unlocked hw]
  cases callee with
  | scalar v => exact hraise
  | cell id =>
    rw [callSlot_through]
    refine (tidy_nativeOf _).bind fun found => ?_
    cases found with
    | some f => exact (hc.lent id f receiver args).bind fun r => tidy_adoptReturn r
    | none => exact hraise

/-- What a class has for a constructor, or null, becomes the newest entry. -/
def findConstructor (id : CellId) : Act Bool :=
  reading id
    (fun
      | .classDesc _ methods => do
        shareFound (methods.get? constructorName)
        pure (methods.has constructorName)
      | _ => do
        push .null
        pure false)
    (do
      push .null
      pure false)

theorem tidy_findConstructor (id : CellId) : Neat rules [] (findConstructor id) := by
  refine Tidy.reading (World.compatible_nil _) (fun p => ?_) fun _ => ?_
  · split
    · exact (tidy_shareFound _).bind fun _ => .pure _ rfl
    · exact (tidy_push _).bind fun _ => .pure _ rfl
  · exact (tidy_push _).bind fun _ => .pure _ rfl

/-- A new instance and the constructor that it is for, where there is a class. -/
def instantiateClass (id : CellId) : Act (Option Slot × Slot) := do
  let found ← findConstructor id
  let constructor ← top
  change (World.only (World.IsClass id) (·.allocInstance id))
  let made ← top
  pure (if found then some constructor else none, made)

theorem tidy_instantiateClass (id : CellId) : Neat rules [] (instantiateClass id) :=
  (tidy_findConstructor id).bind fun _ => tidy_top fun _ =>
    (Tidy.change (.allocInstance id)).bind fun _ => tidy_top fun _ => .pure _ rfl

/-- A class is still one after its constructor was looked up. -/
theorem instantiate_class {m : Machine} {id : CellId}
    (hkind : m.world.kindOf (.cell id) = .classDesc) : instantiate id m = instantiateClass id m := by
  have hmade : m.world.heap.Made id .classDesc := by
    apply Heap.made_of_kind?
    cases hk : m.world.heap.kind? id with
    | none => simp [World.kindOf, hk] at hkind
    | some kind => simpa [World.kindOf, hk] using hkind
  refine bind_congr_done fun found m₁ hrun => bind_congr_done fun constructor m₂ htop => ?_
  have hfind : Neat ⟨⟨False, False⟩, False⟩ [] (findConstructor id) := tidy_findConstructor id
  have hmade₁ := hmade.later (hfind.evolves hrun).heap.later
  cases htop
  exact bind_congr (change_only (World.isClass_of_made hmade₁) _)

theorem construct_class (call : Caller) (id : CellId) (args : List Slot) :
    construct call (.cell id) args = world >>= fun w =>
      if w.kindOf (.cell id) = .classDesc then
        instantiateClass id >>= fun r => do
          match r.1 with
          | some constructor => do
            callSlot call constructor (some r.2) args
            drop
            settle 1
          | none => settle 1
      else raise (.notConstructor (w.display (.cell id))) := by
  funext m
  by_cases hkind : m.world.kindOf (.cell id) = .classDesc
  · have hconstruct :=
      (construct_instantiate call args hkind).trans (bind_congr (instantiate_class hkind))
    rw [bind_done (world_eq m), if_pos hkind]
    exact hconstruct
  · unfold construct
    rw [bind_done (world_eq m), bind_done (world_eq m)]
    dsimp only
    rw [if_neg hkind, if_neg hkind]

/-- The access to the class is over when its constructor is called. -/
theorem tidy_construct (hc : call.Conducts rules) (classSlot : Slot) (args : List Slot) :
    Neat rules [] (construct call classSlot args) := by
  cases classSlot with
  | scalar v => exact .look (fun w => .raise _) fun w hw => by simp only [World.display_unlocked hw]
  | cell id =>
    rw [construct_class]
    refine .look (fun w => ?_) fun w hw => ?_
    · split
      · refine (tidy_instantiateClass id).bind fun r => ?_
        split
        · refine (tidy_callSlot hc _ _ _).bind fun _ => ?_
          exact tidy_drop.bind fun _ => tidy_settle 1
        · exact tidy_settle 1
      · exact .raise _
    · simp only [World.display_unlocked hw]
      rfl

/-! ## Places and operators -/

theorem tidy_addProperty (keys : List String) (key : String) :
    Neat rules [] (addProperty keys key) := by
  unfold addProperty
  split
  · exact (Tidy.change (.replaceBelow _)).bind fun _ => .pure _ rfl
  · exact .pure _ rfl

theorem tidy_assignTo (scope : ScopeId) (place : Location) (op : AssignOp) :
    Neat rules [] (assignTo scope place op) := by
  cases op with
  | set =>
    refine tidy_top fun right => (tidy_share right).bind fun _ => ?_
    exact (tidy_store scope place).bind fun _ => tidy_settle _
  | add | subtract | multiply =>
    refine tidy_top fun right => (tidy_load scope place).bind fun _ => tidy_top fun left => ?_
    refine .look (fun w => ?_) fun w hw => ?_
    · refine tidy_drop.bind fun _ => (tidy_push _).bind fun _ => (tidy_push _).bind fun _ => ?_
      exact (tidy_store scope place).bind fun _ => tidy_settle _
    · rw [World.binary_unlocked hw]
  | other => exact .raise _

theorem tidy_updateAt (scope : ScopeId) (place : Location) (grows returnsNew : Bool) :
    Neat rules [] (updateAt scope place grows returnsNew) := by
  refine (tidy_load scope place).bind fun _ => tidy_top fun current => ?_
  refine tidy_drop.bind fun _ => (tidy_push _).bind fun _ => ?_
  refine (tidy_store scope place).bind fun _ => (tidy_push _).bind fun _ => ?_
  exact tidy_settle _

theorem tidy_applyUnary (op : UnaryOp) : Neat rules [] (applyUnary op) := by
  have hanswer : ∀ v, Neat rules [] (push v >>= fun _ => settle 1) := fun v =>
    (tidy_push v).bind fun _ => tidy_settle 1
  refine tidy_top fun arg => .look (fun w => ?_) fun _ _ => rfl
  cases op with
  | minus | plus | negate | typeOf => exact hanswer _
  | invert | discard | delete => exact .raise _

theorem tidy_applyBinary (op : BinaryOp) : Neat rules [] (applyBinary op) := by
  refine tidy_peek 1 fun l => tidy_top fun r => .look (fun w => ?_) fun w hw => ?_
  · exact (tidy_push _).bind fun _ => tidy_settle 2
  · rw [World.binary_unlocked hw]

end Act

variable {rules : Rules} {on : Surroundings}

/-! ## Expressions -/

theorem tidy_methodCall (hc : on.call.Conducts rules) {target : Expr} {key : MemberKey}
    {args : Items} (htarget : Neat rules [] (target.eval on))
    (hkey : Neat rules [] (key.eval on)) (hargs : Neat rules [] (args.evalArgs on)) :
    Neat rules [] ((Expr.call (.member target key) args).eval on) := by
  rw [Expr.eval]
  refine hargs.bind fun _ => tidy_newest _ fun given => ?_
  refine htarget.bind fun _ => hkey.bind fun _ => tidy_peek 1 fun receiver => ?_
  refine tidy_top fun name => (tidy_getMember receiver name).bind fun _ => ?_
  refine tidy_top fun method => (tidy_nativeOf method).bind fun found => ?_
  cases found with
  | some f => exact (tidy_callSlot hc _ _ _).bind fun _ => tidy_settle _
  | none =>
    refine .look (fun w => .bind (.raise _) fun _ => tidy_settle _) fun w hw => ?_
    rw [World.propertyName_unlocked hw]

theorem tidy_plainCall (hc : on.call.Conducts rules) {callee : Expr} {args : Items}
    (hplain : ∀ target key, callee ≠ .member target key)
    (hcallee : Neat rules [] (callee.eval on))
    (hargs : Neat rules [] (args.evalArgs on)) :
    Neat rules [] ((Expr.call callee args).eval on) := by
  rw [Expr.eval]
  · refine hargs.bind fun _ => tidy_newest _ fun given => hcallee.bind fun _ => ?_
    exact tidy_top fun f => (tidy_callSlot hc _ _ _).bind fun _ => tidy_settle _
  · exact hplain

mutual

theorem Expr.tidy_eval (hc : on.call.Conducts rules) :
    ∀ e : Expr, Neat rules [] (e.eval on)
  | .null | .bool _ | .number _ | .string _ => by
    rw [Expr.eval]
    exact tidy_push _
  | .name x => by
    rw [Expr.eval]
    exact tidy_loadGlobal _ x
  | .paren e => by
    rw [Expr.eval]
    exact e.tidy_eval hc
  | .array elements => by
    rw [Expr.eval]
    exact (elements.tidy_evalElements hc).bind fun _ => .change (.allocArray _)
  | .object properties => by
    rw [Expr.eval]
    have hkeys : (properties.eval on [] >>= fun keys => change (·.allocObject keys)) =
        properties.eval on [] >>= fun keys =>
          change (World.only (fun _ => keys.Nodup) (·.allocObject keys)) := by
      funext m
      refine bind_congr_done fun keys m' hrun => change_only ?_ _
      have heq : keys = properties.spelled.eraseDups := properties.keys_eval [] m hrun
      exact heq ▸ nodup_eraseDups _
    rw [hkeys]
    exact (properties.tidy_eval hc []).bind fun keys => .change (.allocObject keys)
  | .member target key => by
    rw [Expr.eval]
    refine (target.tidy_eval hc).bind fun _ => (key.tidy_eval hc).bind fun _ => ?_
    refine tidy_peek 1 fun target => tidy_top fun key => ?_
    exact (tidy_getMember target key).bind fun _ => tidy_settle 2
  | .call callee args => by
    have hcallee := callee.tidy_eval hc
    have hargs := args.tidy_evalArgs hc
    cases callee with
    | member target key =>
      exact tidy_methodCall hc (target.tidy_eval hc) (key.tidy_eval hc) hargs
    | _ => exact tidy_plainCall hc (by simp) hcallee hargs
  | .specialCall => by
    rw [Expr.eval]
    exact .raise _
  | .construct callee args => by
    rw [Expr.eval]
    refine (callee.tidy_eval hc).bind fun _ => tidy_top fun classSlot => ?_
    refine (args.tidy_evalArgs hc).bind fun _ => tidy_newest _ fun given => ?_
    exact (tidy_construct hc classSlot given).bind fun _ => tidy_settle _
  | .assign target op value => by
    rw [Expr.eval]
    refine (target.tidy_eval hc).bind fun place => (value.tidy_eval hc).bind fun _ => ?_
    exact tidy_assignTo on.scope place op
  | .update grows returnsNew arg => by
    rw [Expr.eval]
    exact (arg.tidy_evalPlace hc).bind fun place => tidy_updateAt on.scope place grows returnsNew
  | .unary op arg => by
    rw [Expr.eval]
    exact (arg.tidy_eval hc).bind fun _ => tidy_applyUnary op
  | .binary op left right => by
    rw [Expr.eval]
    exact (left.tidy_eval hc).bind fun _ => (right.tidy_eval hc).bind fun _ => tidy_applyBinary op
  | .logical op left right => by
    rw [Expr.eval]
    refine (left.tidy_eval hc).bind fun _ => tidy_top fun l => ?_
    split
    · exact (right.tidy_eval hc).bind fun _ => tidy_settle 1
    · exact .pure _ rfl
  | .other => by
    rw [Expr.eval]
    exact .raise _

theorem Items.tidy_evalElements (hc : on.call.Conducts rules) :
    ∀ items : Items, Neat rules [] (items.evalElements on)
  | .nil => by
    rw [Items.evalElements]
    exact .pure _ rfl
  | .item e rest => by
    rw [Items.evalElements]
    exact (e.tidy_eval hc).bind fun _ => rest.tidy_evalElements hc
  | .hole rest => by
    rw [Items.evalElements]
    exact (tidy_push _).bind fun _ => rest.tidy_evalElements hc
  | .spread _ => by
    rw [Items.evalElements]
    exact .raise _

theorem Items.tidy_evalArgs (hc : on.call.Conducts rules) :
    ∀ items : Items, Neat rules [] (items.evalArgs on)
  | .nil => by
    rw [Items.evalArgs]
    exact .pure _ rfl
  | .item e rest => by
    rw [Items.evalArgs]
    exact (e.tidy_eval hc).bind fun _ => rest.tidy_evalArgs hc
  | .hole rest => by
    rw [Items.evalArgs]
    exact (tidy_push _).bind fun _ => rest.tidy_evalArgs hc
  | .spread _ => by
    rw [Items.evalArgs]
    exact .raise _

theorem Properties.tidy_eval (hc : on.call.Conducts rules) :
    ∀ (properties : Properties) (keys : List String),
      Neat rules [] (properties.eval on keys)
  | .nil, keys => by
    rw [Properties.eval]
    exact .pure _ rfl
  | .keyed key value rest, keys => by
    rw [Properties.eval]
    split
    · exact .raise _
    · refine (value.tidy_eval hc).bind fun _ => (tidy_addProperty keys _).bind fun keys => ?_
      exact rest.tidy_eval hc keys
  | .shorthand name rest, keys => by
    rw [Properties.eval]
    refine (tidy_loadGlobal on.scope name).bind fun _ => ?_
    exact (tidy_addProperty keys _).bind fun keys => rest.tidy_eval hc keys
  | .spread _, _ => by
    rw [Properties.eval]
    exact .raise _
  | .other _, _ => by
    rw [Properties.eval]
    exact .raise _

theorem MemberKey.tidy_eval (hc : on.call.Conducts rules) :
    ∀ key : MemberKey, Neat rules [] (key.eval on)
  | .name s => by
    rw [MemberKey.eval]
    exact tidy_push _
  | .computed e => by
    rw [MemberKey.eval]
    exact e.tidy_eval hc
  | .hidden => by
    rw [MemberKey.eval]
    exact .raise _

theorem Target.tidy_eval (hc : on.call.Conducts rules) :
    ∀ target : Target, Neat rules [] (target.eval on)
  | .name x => by
    rw [Target.eval]
    exact .pure _ rfl
  | .member target key => by
    rw [Target.eval]
    refine (target.tidy_eval hc).bind fun _ => (key.tidy_eval hc).bind fun _ => ?_
    exact tidy_peek 1 fun t => tidy_top fun k => .pure _ rfl
  | .other => by
    rw [Target.eval]
    exact .raise _

theorem Expr.tidy_evalPlace (hc : on.call.Conducts rules) :
    ∀ e : Expr, Neat rules [] (e.evalPlace on)
  | .name x => by
    rw [Expr.evalPlace]
    exact .pure _ rfl
  | .member target key => by
    rw [Expr.evalPlace]
    refine (target.tidy_eval hc).bind fun _ => (key.tidy_eval hc).bind fun _ => ?_
    exact tidy_peek 1 fun t => tidy_top fun k => .pure _ rfl
  | .paren e => by
    rw [Expr.evalPlace]
    exact e.tidy_evalPlace hc
  | .null | .bool _ | .number _ | .string _ | .array _ | .object _ | .call _ _ | .specialCall
  | .construct _ _ | .assign _ _ _ | .update _ _ _ | .unary _ _ | .binary _ _ _ | .logical _ _ _
  | .other => by
    simp only [Expr.evalPlace]
    exact .raise _

end

/-! ## Statements and runs -/

theorem Declarators.tidy_exec (hc : on.call.Conducts rules) (declarators : Declarators) :
    Neat rules [] (declarators.exec on) := by
  induction declarators with
  | nil =>
    rw [Declarators.exec]
    exact .pure _ rfl
  | name x init rest ih =>
    cases init with
    | some e =>
      rw [Declarators.exec]
      exact (e.tidy_eval hc).bind fun _ => (tidy_declare on.scope x).bind fun _ => ih
    | none =>
      rw [Declarators.exec]
      exact (tidy_push _).bind fun _ => (tidy_declare on.scope x).bind fun _ => ih
  | pattern rest ih =>
    rw [Declarators.exec]
    exact .raise _

theorem Expr.tidy_test (hc : on.call.Conducts rules) (e : Expr) :
    Neat rules [] (e.test on) :=
  (e.tidy_eval hc).bind fun _ => tidy_top fun _ => tidy_drop.bind fun _ => .pure _ rfl

mutual

theorem Statement.tidy_exec (hc : on.call.Conducts rules) :
    ∀ s : Statement, Neat rules [] (s.exec on)
  | .expression e => by
    rw [Statement.exec]
    exact (e.tidy_eval hc).bind fun _ => tidy_settle 1
  | .declare declarators => by
    rw [Statement.exec]
    exact declarators.tidy_exec hc
  | .block body => by
    rw [Statement.exec]
    exact body.tidy_exec hc
  | .branch test yes => by
    rw [Statement.exec]
    refine (test.tidy_test hc).bind fun go => ?_
    cases go with
    | true => exact yes.tidy_exec hc
    | false => exact .pure () rfl
  | .choice test yes no => by
    rw [Statement.exec]
    refine (test.tidy_test hc).bind fun go => ?_
    cases go with
    | true => exact yes.tidy_exec hc
    | false => exact no.tidy_exec hc
  | .loop test body => by
    rw [Statement.exec]
    exact tidy_repeatWhile (test.tidy_test hc) (body.tidy_exec hc) _
  | .empty => by
    rw [Statement.exec]
    exact .pure _ rfl
  | .other => by
    rw [Statement.exec]
    exact .raise _

theorem Statements.tidy_exec (hc : on.call.Conducts rules) :
    ∀ body : Statements, Neat rules [] (body.exec on)
  | .nil => by
    rw [Statements.exec]
    exact .pure _ rfl
  | .cons s rest => by
    rw [Statements.exec]
    exact (s.tidy_exec hc).bind fun _ => rest.tidy_exec hc

end

namespace Act

theorem tidy_execScript (hc : on.call.Conducts rules) (code : String) :
    Neat rules [] (execScript on code) := by
  unfold execScript
  split
  · exact (tidy_push _).bind fun _ => Statements.tidy_exec hc _
  · exact .raise _

theorem tidy_runScript (hc : on.call.Conducts rules) (code : String) :
    Neat rules [] (runScript on code) :=
  (tidy_execScript hc code).recover

end Act
end Enclave
