import Enclave.Proofs.Script.Reaches

/-! # Forms that are refused

A script that fails for want of a rule has come to a form that the evaluator has no rule for. By
induction on the tree: the acts between the parts of a form refuse nothing, so that a refusal is a
part's own.
-/
namespace Enclave

namespace Act

variable {α β : Type}

/-- The act fails for other reasons than want of a rule, if at all. -/
def NeverRefuses (x : Act α) : Prop :=
  ∀ m form m', x m ≠ .raised (.unsupported form) m'

theorem never_pure (a : α) : NeverRefuses (pure a) := by
  rintro m form m' ⟨⟩

theorem never_stop (why : Stop) : NeverRefuses (stop why : Act α) := by
  rintro m form m' ⟨⟩

theorem never_raise {fault : Fault} (hf : ∀ form, fault ≠ .unsupported form) :
    NeverRefuses (raise fault : Act α) := by
  intro m form m' h
  cases h
  exact hf form rfl

theorem never_world : NeverRefuses world := by
  rintro m form m' ⟨⟩

theorem never_change (f : World → World) : NeverRefuses (change f) := by
  rintro m form m' ⟨⟩

theorem bind_raised_iff {x : Act α} {f : α → Act β} {m m' : Machine} {fault : Fault} :
    (x >>= f) m = .raised fault m' ↔
      x m = .raised fault m' ∨ ∃ a m₁, x m = .done a m₁ ∧ f a m₁ = .raised fault m' := by
  constructor
  · intro h
    cases hx : x m with
    | done a m₁ => exact .inr ⟨a, m₁, rfl, (bind_done hx).symm.trans h⟩
    | raised e m₁ =>
      cases (bind_raised (f := f) hx).symm.trans h
      exact .inl rfl
    | stopped halt =>
      change Act.bind x f m = _ at h
      rw [Act.bind, hx] at h
      cases h
  · rintro (h | ⟨a, m₁, ha, h⟩)
    · exact bind_raised h
    · exact (bind_done ha).trans h

theorem NeverRefuses.bind {x : Act α} {f : α → Act β} (hx : NeverRefuses x)
    (hf : ∀ a, NeverRefuses (f a)) : NeverRefuses (x >>= f) := by
  intro m form m' h
  rcases bind_raised_iff.mp h with h | ⟨a, m₁, -, h⟩
  · exact hx m form m' h
  · exact hf a m₁ form m' h

theorem NeverRefuses.guarded {x : Act α} (hx : NeverRefuses x) (g : Guard) :
    NeverRefuses (guarded g x) := by
  intro m form m' h
  unfold Act.guarded at h
  cases hr : x { m with world := m.world.guard g } with
  | done a m₁ =>
    rw [hr] at h
    cases h
  | raised fault m₁ =>
    rw [hr] at h
    cases h
    exact hx _ form m₁ hr
  | stopped halt =>
    rw [hr] at h
    cases h

theorem NeverRefuses.accessing {x refused : Act α} (hx : NeverRefuses x)
    (hr : NeverRefuses refused) (g : Guard) : NeverRefuses (accessing g x refused) := by
  refine never_world.bind fun w => ?_
  split
  · exact hx.guarded g
  · exact hr

theorem NeverRefuses.surely {x : Act α} (hx : NeverRefuses x) (g : Guard) :
    NeverRefuses (surely g x) :=
  hx.accessing (never_stop _) g

theorem NeverRefuses.reading {x : Payload → Act α} {refused : Act α}
    (hx : ∀ p, NeverRefuses (x p)) (hr : NeverRefuses refused) (id : CellId) :
    NeverRefuses (reading id x refused) := by
  refine NeverRefuses.accessing (never_world.bind fun w => ?_) hr _
  split
  · exact hx _
  · exact hr

theorem NeverRefuses.writing {x : Payload → Act α} {refused : Act α}
    (hx : ∀ p, NeverRefuses (x p)) (hr : NeverRefuses refused) (id : CellId) :
    NeverRefuses (writing id x refused) := by
  refine NeverRefuses.accessing (never_world.bind fun w => ?_) hr _
  split
  · exact hx _
  · exact hr

/-! ## What happens between the parts of a form -/

theorem never_top : NeverRefuses top :=
  never_world.bind fun _ => never_pure _

theorem never_peek (n : Nat) : NeverRefuses (peek n) :=
  never_world.bind fun _ => never_pure _

theorem never_newest (n : Nat) : NeverRefuses (newest n) :=
  never_world.bind fun _ => never_pure _

theorem never_push (v : Scalar) : NeverRefuses (push v) :=
  never_change _

theorem never_share (s : Slot) : NeverRefuses (share s) :=
  never_change _

theorem never_drop : NeverRefuses drop :=
  never_change _

theorem never_settle (n : Nat) : NeverRefuses (settle n) :=
  never_change _

theorem never_readProperty (properties : Table Slot) (classLink : Option CellId) (name : String) :
    NeverRefuses (readProperty properties classLink name) := by
  unfold readProperty
  split
  · exact never_share _
  · split
    · exact never_push _
    · refine NeverRefuses.reading (fun p => ?_) (never_push _) _
      split
      · exact never_share _
      · exact never_push _

theorem never_getMember (target key : Slot) : NeverRefuses (getMember target key) := by
  refine never_world.bind fun w => ?_
  dsimp only
  split
  · exact never_raise (by simp)
  · split <;> exact never_push _
  · exact never_push _
  · refine NeverRefuses.reading (fun p => ?_) (never_push _) _
    split
    · split
      · exact never_push _
      · exact never_share _
    · exact never_readProperty _ _ _
    · split <;> exact never_push _
    · split
      · exact never_share _
      · exact never_push _
    · exact never_push _

theorem never_setMember (target key : Slot) : NeverRefuses (setMember target key) := by
  refine never_world.bind fun w => ?_
  dsimp only
  split
  · exact never_raise (by simp)
  · refine (NeverRefuses.writing (fun p => ?_) (never_raise (by simp)) _).bind fun _ => never_drop
    split
    · split
      · exact never_raise (by simp)
      · split
        · exact never_change _
        · exact never_raise (by simp)
    · exact never_change _
    · exact never_raise (by simp)

theorem never_copyGlobal (scope : ScopeId) (name : String) :
    NeverRefuses (copyGlobal scope name) := by
  refine NeverRefuses.surely (never_world.bind fun w => ?_) _
  split
  · exact (never_share _).bind fun _ => never_pure _
  · exact never_pure _

theorem never_loadGlobal (scope : ScopeId) (name : String) :
    NeverRefuses (loadGlobal scope name) := by
  refine (never_copyGlobal scope name).bind fun found => ?_
  split
  · exact never_pure _
  · exact never_raise (by simp)

theorem never_declare (scope : ScopeId) (name : String) : NeverRefuses (declare scope name) :=
  ((never_change _).surely _).bind fun _ => never_drop

theorem never_load (scope : ScopeId) (place : Location) : NeverRefuses (load scope place) := by
  cases place with
  | «global» name => exact never_loadGlobal scope name
  | member target key => exact never_getMember target key

theorem never_store (scope : ScopeId) (place : Location) : NeverRefuses (store scope place) := by
  cases place with
  | «global» name =>
    refine (never_copyGlobal scope name).bind fun found => ?_
    split
    · exact never_drop.bind fun _ => never_declare scope name
    · exact never_raise (by simp)
  | member target key => exact never_setMember target key

theorem never_addProperty (keys : List String) (key : String) :
    NeverRefuses (addProperty keys key) := by
  unfold addProperty
  split
  · exact (never_change _).bind fun _ => never_pure _
  · exact never_pure _

theorem never_updateAt (scope : ScopeId) (place : Location) (grows returnsNew : Bool) :
    NeverRefuses (updateAt scope place grows returnsNew) := by
  refine (never_load scope place).bind fun _ => never_top.bind fun _ => ?_
  refine never_drop.bind fun _ => (never_push _).bind fun _ => ?_
  exact (never_store scope place).bind fun _ => (never_push _).bind fun _ => never_settle _

theorem never_applyBinary (op : BinaryOp) : NeverRefuses (applyBinary op) :=
  (never_peek 1).bind fun _ => never_top.bind fun _ => never_world.bind fun _ =>
    (never_push _).bind fun _ => never_settle 2

/-! ## Calls -/

theorem never_nativeOf (s : Slot) : NeverRefuses (nativeOf s) := by
  unfold nativeOf
  split
  · exact never_pure _
  · refine NeverRefuses.reading (fun p => ?_) (never_pure _) _
    split <;> exact never_pure _

theorem never_adoptReturn (r : Record) : NeverRefuses (adoptReturn r) := by
  refine NeverRefuses.bind ?_ fun _ => ?_
  · unfold consume
    split
    · exact never_pure _
    · exact never_drop.bind fun _ => never_push _
  · unfold freeText
    split
    · exact never_change _
    · exact never_pure _

end Act

open Act

/-- Native functions answer with records; they refuse nothing. -/
def Caller.Answers (call : Caller) : Prop :=
  ∀ callee f argc argv receiver, NeverRefuses (call callee f argc argv receiver)

namespace Act

variable {call : Caller}

theorem never_callSlot (hc : call.Answers) (callee : Slot) (receiver : Option Slot)
    (args : List Slot) : NeverRefuses (callSlot call callee receiver args) := by
  refine (never_nativeOf callee).bind fun found => ?_
  split
  · exact never_world.bind fun w => (hc _ _ _ _ _).bind fun r => never_adoptReturn r
  · exact never_world.bind fun w => never_raise (by simp)

theorem never_construct (hc : call.Answers) (classSlot : Slot) (args : List Slot) :
    NeverRefuses (construct call classSlot args) := by
  refine never_world.bind fun w => ?_
  dsimp only
  split
  · split
    · refine (NeverRefuses.reading (fun p => ?_) ?_ _).bind fun found => ?_
      · split
        · exact (never_share _).bind fun _ => never_pure _
        · exact (never_push _).bind fun _ => never_pure _
      · exact (never_push _).bind fun _ => never_pure _
      · refine never_top.bind fun constructor => (never_change _).bind fun _ => ?_
        refine never_top.bind fun made => ?_
        split
        · exact (never_callSlot hc _ _ _).bind fun _ => never_drop.bind fun _ => never_settle _
        · exact never_settle _
    · exact never_raise (by simp)
  · exact never_raise (by simp)

end Act

/-! ## Where a refusal comes from -/

namespace Act

variable {α β : Type} {on : Surroundings} {p q : Site × Machine} {m : Machine}

/-- If the act refuses a form, then evaluation gets from `p` to a site of this form. -/
def Blames (on : Surroundings) (p : Site × Machine) (x : Act α) (m : Machine) : Prop :=
  ∀ form m', x m = .raised (.unsupported form) m' →
    ∃ q, Site.Reaches on p q ∧ q.1.unknown? = some form

theorem NeverRefuses.blames {x : Act α} (hx : NeverRefuses x) : Blames on p x m :=
  fun form m' h => (hx m form m' h).elim

theorem blames_raise {form : Form} (hu : p.1.unknown? = some form) :
    Blames on p (raise (.unsupported form) : Act α) m := by
  intro form' m' h
  cases h
  exact ⟨p, .refl, hu⟩

theorem Blames.bind {x : Act α} {f : α → Act β} (hx : Blames on p x m)
    (hf : ∀ a m₁, x m = .done a m₁ → Blames on p (f a) m₁) : Blames on p (x >>= f) m := by
  intro form m' h
  rcases bind_raised_iff.mp h with h | ⟨a, m₁, ha, h⟩
  · exact hx form m' h
  · exact hf a m₁ ha form m' h

/-- An act that refuses nothing, and what follows it. -/
theorem NeverRefuses.andThen {x : Act α} {f : α → Act β} (hx : NeverRefuses x)
    (hf : ∀ a m₁, x m = .done a m₁ → Blames on p (f a) m₁) : Blames on p (x >>= f) m :=
  hx.blames.bind hf

theorem blames_top {f : Slot → Act β} (hf : Blames on p (f m.world.top) m) :
    Blames on p (top >>= f) m :=
  hf

theorem blames_newest {n : Nat} {f : List Slot → Act β}
    (hf : Blames on p (f (m.world.newest n)) m) : Blames on p (newest n >>= f) m :=
  hf

/-- What a site is blamed for is blamed on every site that comes to it. -/
theorem Blames.via {x : Act α} (hx : Blames on q x m) (hc : Site.Comes on p q) : Blames on p x m := by
  intro form m' h
  obtain ⟨r, hr, hu⟩ := hx form m' h
  exact ⟨r, .head hc hr, hu⟩

theorem blames_assignTo (scope : ScopeId) (place : Location) (op : AssignOp) :
    Blames on (.assignment place op, m) (assignTo scope place op) m := by
  cases op with
  | set =>
    refine NeverRefuses.blames (never_top.bind fun right => (never_share _).bind fun _ => ?_)
    exact (never_store scope place).bind fun _ => never_settle _
  | add | subtract | multiply =>
    refine NeverRefuses.blames (never_top.bind fun right => (never_load scope place).bind fun _ => ?_)
    refine never_top.bind fun left => never_world.bind fun w => never_drop.bind fun _ => ?_
    refine (never_push _).bind fun _ => (never_push _).bind fun _ => ?_
    exact (never_store scope place).bind fun _ => never_settle _
  | other => exact blames_raise rfl

theorem blames_applyUnary (op : UnaryOp) : Blames on (.unary op, m) (applyUnary op) m := by
  cases op with
  | minus | plus | negate | typeOf =>
    refine NeverRefuses.blames (never_top.bind fun arg => never_world.bind fun w => ?_)
    exact (never_push _).bind fun _ => never_settle 1
  | invert | discard | delete => exact blames_top (blames_raise rfl)

end Act

variable {on : Surroundings}

/-- What the evaluation of a place ends with. -/
theorem never_placeOf : NeverRefuses (do
    let t ← peek 1
    let k ← top
    pure (Location.member t k)) :=
  (never_peek 1).bind fun _ => never_top.bind fun _ => never_pure _

/-- What the evaluation of a member ends with. -/
theorem never_memberOf : NeverRefuses (do
    let t ← peek 1
    let k ← top
    getMember t k
    settle 2) :=
  (never_peek 1).bind fun _ => never_top.bind fun _ =>
    (never_getMember _ _).bind fun _ => never_settle 2

mutual

theorem Expr.blames_eval (hc : on.call.Answers) :
    ∀ (e : Expr) (m : Machine), Blames on (.expr e, m) (e.eval on) m
  | .null, _ | .bool _, _ | .number _, _ | .string _, _ => by
    rw [Expr.eval]
    exact (never_push _).blames
  | .name x, _ => by
    rw [Expr.eval]
    exact (never_loadGlobal _ x).blames
  | .paren e, m => by
    rw [Expr.eval]
    exact (e.blames_eval hc m).via (.paren e m)
  | .array elements, m => by
    rw [Expr.eval]
    refine ((elements.blames_evalElements hc m).via (.array elements m)).bind fun _ _ _ => ?_
    exact (never_change _).blames
  | .object properties, m => by
    rw [Expr.eval]
    refine ((properties.blames_eval hc [] m).via (.object properties m)).bind fun _ _ _ => ?_
    exact (never_change _).blames
  | .member target key, m => by
    rw [Expr.eval]
    refine ((target.blames_eval hc m).via (.memberTarget target key m)).bind fun _ m₁ ht => ?_
    refine ((key.blames_eval hc m₁).via (.memberKey target key ht)).bind fun _ _ _ => ?_
    exact never_memberOf.blames
  | .call callee args, m => by
    have hcallee := callee.blames_eval hc
    have hargs := args.blames_evalArgs hc
    cases callee with
    | member target key =>
      rw [Expr.eval]
      refine ((hargs m).via (.methodArgs target key args m)).bind fun _ m₁ ha => ?_
      refine blames_newest ?_
      refine ((target.blames_eval hc m₁).via (.methodTarget target key args ha)).bind
        fun _ m₂ ht => ?_
      refine ((key.blames_eval hc m₂).via (.methodKey target key args ha ht)).bind fun _ _ _ => ?_
      refine NeverRefuses.blames ((never_peek 1).bind fun _ => never_top.bind fun k => ?_)
      refine (never_getMember _ _).bind fun _ => never_top.bind fun method => ?_
      refine (never_nativeOf method).bind fun found => ?_
      split
      · exact (never_callSlot hc _ _ _).bind fun _ => never_settle _
      · exact never_world.bind fun w => (never_raise (by simp)).bind fun _ => never_settle _
    | _ =>
      rw [Expr.eval]
      · refine ((hargs m).via (.callArgs _ args m (by simp))).bind fun _ m₁ ha => ?_
        refine blames_newest ?_
        refine ((hcallee m₁).via (.callCallee _ args (by simp) ha)).bind fun _ _ _ => ?_
        refine NeverRefuses.blames (never_top.bind fun f => ?_)
        exact (never_callSlot hc _ _ _).bind fun _ => never_settle _
      · simp
  | .specialCall, _ => by
    rw [Expr.eval]
    exact blames_raise rfl
  | .construct callee args, m => by
    rw [Expr.eval]
    refine ((callee.blames_eval hc m).via (.constructCallee callee args m)).bind fun _ m₁ ht => ?_
    refine blames_top ?_
    refine ((args.blames_evalArgs hc m₁).via (.constructArgs callee args ht)).bind fun _ _ _ => ?_
    refine NeverRefuses.blames ((never_newest _).bind fun _ => ?_)
    exact (never_construct hc _ _).bind fun _ => never_settle _
  | .assign target op value, m => by
    rw [Expr.eval]
    refine ((target.blames_eval hc m).via (.assignTarget target op value m)).bind
      fun place m₁ ht => ?_
    refine ((value.blames_eval hc m₁).via (.assignValue target op value ht)).bind fun _ m₂ hv => ?_
    exact (blames_assignTo on.scope place op).via (.assignApply target op value ht hv)
  | .update grows returnsNew arg, m => by
    rw [Expr.eval]
    refine ((arg.blames_evalPlace hc m).via (.update grows returnsNew arg m)).bind
      fun place _ _ => ?_
    exact (never_updateAt on.scope place grows returnsNew).blames
  | .unary op arg, m => by
    rw [Expr.eval]
    refine ((arg.blames_eval hc m).via (.unaryArg op arg m)).bind fun _ m₁ ha => ?_
    exact (blames_applyUnary op).via (.unaryApply op arg ha)
  | .binary op left right, m => by
    rw [Expr.eval]
    refine ((left.blames_eval hc m).via (.binaryLeft op left right m)).bind fun _ m₁ hl => ?_
    refine ((right.blames_eval hc m₁).via (.binaryRight op left right hl)).bind fun _ _ _ => ?_
    exact (never_applyBinary op).blames
  | .logical op left right, m => by
    rw [Expr.eval]
    refine ((left.blames_eval hc m).via (.logicalLeft op left right m)).bind fun _ m₁ hl => ?_
    refine blames_top ?_
    split
    · rename_i ht
      refine ((right.blames_eval hc m₁).via
        (.logicalRight op left right hl (beq_iff_eq.mp ht))).bind fun _ _ _ => ?_
      exact (never_settle 1).blames
    · exact (never_pure _).blames
  | .other, _ => by
    rw [Expr.eval]
    exact blames_raise rfl

theorem Items.blames_evalElements (hc : on.call.Answers) :
    ∀ (items : Items) (m : Machine), Blames on (.elements items, m) (items.evalElements on) m
  | .nil, _ => by
    rw [Items.evalElements]
    exact (never_pure _).blames
  | .item e rest, m => by
    rw [Items.evalElements]
    refine ((e.blames_eval hc m).via (.element e rest m)).bind fun _ m₁ he => ?_
    exact (rest.blames_evalElements hc m₁).via (.afterElement e rest he)
  | .hole rest, m => by
    rw [Items.evalElements]
    refine (never_push _).andThen fun _ m₁ hn => ?_
    exact (rest.blames_evalElements hc m₁).via (.afterHole rest hn)
  | .spread _, _ => by
    rw [Items.evalElements]
    exact blames_raise rfl

theorem Items.blames_evalArgs (hc : on.call.Answers) :
    ∀ (items : Items) (m : Machine), Blames on (.args items, m) (items.evalArgs on) m
  | .nil, _ => by
    rw [Items.evalArgs]
    exact (never_pure _).blames
  | .item e rest, m => by
    rw [Items.evalArgs]
    refine ((e.blames_eval hc m).via (.arg e rest m)).bind fun _ m₁ he => ?_
    exact (rest.blames_evalArgs hc m₁).via (.afterArg e rest he)
  | .hole rest, m => by
    rw [Items.evalArgs]
    refine (never_push _).andThen fun _ m₁ hn => ?_
    exact (rest.blames_evalArgs hc m₁).via (.afterArgHole rest hn)
  | .spread _, _ => by
    rw [Items.evalArgs]
    exact blames_raise rfl

theorem Properties.blames_eval (hc : on.call.Answers) :
    ∀ (properties : Properties) (keys : List String) (m : Machine),
      Blames on (.properties properties keys, m) (properties.eval on keys) m
  | .nil, _, _ => by
    rw [Properties.eval]
    exact (never_pure _).blames
  | .keyed key value rest, keys, m => by
    rw [Properties.eval]
    split
    · rename_i hk
      cases key with
      | other => exact blames_raise rfl
      | text | number => cases hk
    · rename_i name hk
      refine ((value.blames_eval hc m).via (.property key value rest keys m hk)).bind
        fun _ m₁ hv => ?_
      refine (never_addProperty keys name).andThen fun more m₂ ha => ?_
      exact (rest.blames_eval hc more m₂).via (.afterProperty key value rest keys hk hv ha)
  | .shorthand name rest, keys, m => by
    rw [Properties.eval]
    refine (never_loadGlobal on.scope name).andThen fun _ m₁ hl => ?_
    refine (never_addProperty keys name).andThen fun more m₂ ha => ?_
    exact (rest.blames_eval hc more m₂).via (.afterShorthand name rest keys hl ha)
  | .spread _, _, _ => by
    rw [Properties.eval]
    exact blames_raise rfl
  | .other _, _, _ => by
    rw [Properties.eval]
    exact blames_raise rfl

theorem MemberKey.blames_eval (hc : on.call.Answers) :
    ∀ (key : MemberKey) (m : Machine), Blames on (.key key, m) (key.eval on) m
  | .name s, _ => by
    rw [MemberKey.eval]
    exact (never_push _).blames
  | .computed e, m => by
    rw [MemberKey.eval]
    exact (e.blames_eval hc m).via (.computedKey e m)
  | .hidden, _ => by
    rw [MemberKey.eval]
    exact blames_raise rfl

theorem Target.blames_eval (hc : on.call.Answers) :
    ∀ (target : Target) (m : Machine), Blames on (.target target, m) (target.eval on) m
  | .name x, _ => by
    rw [Target.eval]
    exact (never_pure _).blames
  | .member target key, m => by
    rw [Target.eval]
    refine ((target.blames_eval hc m).via (.targetOf target key m)).bind fun _ m₁ ht => ?_
    refine ((key.blames_eval hc m₁).via (.targetKey target key ht)).bind fun _ _ _ => ?_
    exact never_placeOf.blames
  | .other, _ => by
    rw [Target.eval]
    exact blames_raise rfl

theorem Expr.blames_evalPlace (hc : on.call.Answers) :
    ∀ (e : Expr) (m : Machine), Blames on (.place e, m) (e.evalPlace on) m
  | .name x, _ => by
    rw [Expr.evalPlace]
    exact (never_pure _).blames
  | .member target key, m => by
    rw [Expr.evalPlace]
    refine ((target.blames_eval hc m).via (.placeOf target key m)).bind fun _ m₁ ht => ?_
    refine ((key.blames_eval hc m₁).via (.placeKey target key ht)).bind fun _ _ _ => ?_
    exact never_placeOf.blames
  | .paren e, m => by
    rw [Expr.evalPlace]
    exact (e.blames_evalPlace hc m).via (.placeParen e m)
  | .null, _ | .bool _, _ | .number _, _ | .string _, _ | .array _, _ | .object _, _
  | .call _ _, _ | .specialCall, _ | .construct _ _, _ | .assign _ _ _, _ | .update _ _ _, _
  | .unary _ _, _ | .binary _ _ _, _ | .logical _ _ _, _ | .other, _ => by
    simp only [Expr.evalPlace]
    exact blames_raise rfl

end

/-! ## Statements -/

theorem Declarators.blames_exec (hc : on.call.Answers) (declarators : Declarators) (m : Machine) :
    Blames on (.declarators declarators, m) (declarators.exec on) m := by
  induction declarators generalizing m with
  | nil =>
    rw [Declarators.exec]
    exact (never_pure _).blames
  | name x init rest ih =>
    cases init with
    | some e =>
      rw [Declarators.exec]
      refine ((e.blames_eval hc m).via (.initial x e rest m)).bind fun _ m₁ he => ?_
      refine (never_declare on.scope x).andThen fun _ m₂ hd => ?_
      exact (ih m₂).via (.afterInitial x e rest he hd)
    | none =>
      rw [Declarators.exec]
      refine (never_push _).andThen fun _ m₁ hn => ?_
      refine (never_declare on.scope x).andThen fun _ m₂ hd => ?_
      exact (ih m₂).via (.afterName x rest hn hd)
  | pattern rest ih =>
    rw [Declarators.exec]
    exact blames_raise rfl

theorem Expr.blames_test (hc : on.call.Answers) (e : Expr) (m : Machine) :
    Blames on (.test e, m) (e.test on) m := by
  refine ((e.blames_eval hc m).via (.tested e m)).bind fun _ _ _ => ?_
  exact NeverRefuses.blames (never_top.bind fun s => never_drop.bind fun _ => never_pure _)

theorem blames_rounds {test : Expr} {body : Statement} (hc : on.call.Answers)
    (hb : ∀ m, Blames on (.statement body, m) (body.exec on) m) (patience : Nat) (m : Machine) :
    Blames on (.rounds test body patience, m)
      (repeatWhile (test.test on) (body.exec on) patience) m := by
  induction patience generalizing m with
  | zero => exact (never_stop _).blames
  | succ patience ih =>
    rw [repeatWhile_succ]
    refine ((test.blames_test hc m).via (.roundTest test body patience m)).bind fun go m₁ ht => ?_
    cases go with
    | false => exact (never_pure _).blames
    | true =>
      refine ((hb m₁).via (.roundBody test body patience ht)).bind fun _ m₂ hs => ?_
      exact (ih m₂).via (.nextRound test body patience ht hs)

mutual

theorem Statement.blames_exec (hc : on.call.Answers) :
    ∀ (s : Statement) (m : Machine), Blames on (.statement s, m) (s.exec on) m
  | .expression e, m => by
    rw [Statement.exec]
    refine ((e.blames_eval hc m).via (.expression e m)).bind fun _ _ _ => ?_
    exact (never_settle 1).blames
  | .declare declarators, m => by
    rw [Statement.exec]
    exact (declarators.blames_exec hc m).via (.declaration declarators m)
  | .block body, m => by
    rw [Statement.exec]
    exact (body.blames_exec hc m).via (.block body m)
  | .branch test yes, m => by
    rw [Statement.exec]
    refine ((test.blames_test hc m).via (.branchTest test yes m)).bind fun go m₁ ht => ?_
    cases go with
    | true => exact (yes.blames_exec hc m₁).via (.branchYes test yes ht)
    | false => exact (never_pure _).blames
  | .choice test yes no, m => by
    rw [Statement.exec]
    refine ((test.blames_test hc m).via (.choiceTest test yes no m)).bind fun go m₁ ht => ?_
    cases go with
    | true => exact (yes.blames_exec hc m₁).via (.choiceYes test yes no ht)
    | false => exact (no.blames_exec hc m₁).via (.choiceNo test yes no ht)
  | .loop test body, m => by
    rw [Statement.exec]
    exact (blames_rounds hc (body.blames_exec hc) on.patience m).via (.loop test body m)
  | .empty, _ => by
    rw [Statement.exec]
    exact (never_pure _).blames
  | .other, _ => by
    rw [Statement.exec]
    exact blames_raise rfl

theorem Statements.blames_exec (hc : on.call.Answers) :
    ∀ (body : Statements) (m : Machine), Blames on (.statements body, m) (body.exec on) m
  | .nil, _ => by
    rw [Statements.exec]
    exact (never_pure _).blames
  | .cons s rest, m => by
    rw [Statements.exec]
    refine ((s.blames_exec hc m).via (.first s rest m)).bind fun _ m₁ hs => ?_
    exact (rest.blames_exec hc m₁).via (.next s rest hs)

end

theorem Act.blames_execProgram (hc : on.call.Answers) (program : Statements) (m : Machine) :
    Blames on (.program program, m) (execProgram on program) m := by
  refine (never_push _).andThen fun _ m₁ hn => ?_
  exact (program.blames_exec hc m₁).via (.start program hn)

end Enclave
