import Enclave.Proofs.Script.Calls

/-! # Evaluation is accounted for

An expression leaves one entry more than there was, whatever it calls on the way, and a statement
takes the place of the newest entry. By induction on the tree, where a call needs what it lends to be
among the entries that evaluation left on the stack.
-/
namespace Enclave

open Act

namespace Act

variable {t : Limits} {o : List Slot}

theorem shifts_addProperty (keys : List String) (key : String) :
    Shifts t True (keys.length + 1) (addProperty keys key) fun keys => keys.length := by
  intro o
  unfold addProperty
  split
  · rename_i i hi
    obtain ⟨hlt, -⟩ := List.findIdx?_eq_some_iff_getElem.mp hi
    have hx : Spec t True o (Over (keys.length + 1) o)
        (change (·.replaceBelow (keys.length - 1 - i))) fun _ => Over keys.length o := by
      refine over_change (fun w => w.move_replaceBelow t _) fun w hw => ?_
      have hw' : Over (i + (keys.length - 1 - i) + 2) o w.stack := hw.mono (by omega)
      exact (World.over_replaceBelow hw').mono (by omega)
    exact hx.bind fun _ => over_pure _ (Nat.le_refl _)
  · exact over_pure _ (by simp)

theorem shifts_assignTo (scope : ScopeId) (place : Location) (op : AssignOp) :
    Shifts t True (place.width + 1) (assignTo scope place op) fun _ => 1 := by
  intro o
  cases op with
  | set =>
    refine spec_top fun right => ?_
    refine (shifts_share right).bind (Nat.zero_le _) fun _ => ?_
    refine (shifts_store scope place).bind (by omega) fun _ => ?_
    exact (shifts_settle _).last (by omega) (by simp)
  | add | subtract | multiply =>
    refine spec_top fun right => ?_
    refine (shifts_load scope place).bind (Nat.zero_le _) fun _ => ?_
    refine spec_top fun left => spec_world fun w => ?_
    refine shifts_drop.bind (by omega) fun _ => ?_
    refine (shifts_push _).bind (Nat.zero_le _) fun _ => ?_
    refine (shifts_push _).bind (Nat.zero_le _) fun _ => ?_
    refine (shifts_store scope place).bind (by omega) fun _ => ?_
    exact (shifts_settle _).last (by omega) (by simp)
  | other => exact spec_raise _

theorem shifts_updateAt (scope : ScopeId) (place : Location) (grows returnsNew : Bool) :
    Shifts t True place.width (updateAt scope place grows returnsNew) fun _ => 1 := by
  intro o
  refine (shifts_load scope place).bind (Nat.zero_le _) fun _ => ?_
  refine spec_top fun current => ?_
  refine shifts_drop.bind (by omega) fun _ => ?_
  refine (shifts_push _).bind (Nat.zero_le _) fun _ => ?_
  refine (shifts_store scope place).bind (by omega) fun _ => ?_
  refine (shifts_push _).bind (Nat.zero_le _) fun _ => ?_
  exact (shifts_settle _).last (by omega) (by simp)

theorem shifts_applyUnary (op : UnaryOp) : Shifts t True 1 (applyUnary op) fun _ => 1 := by
  intro o
  refine spec_top fun arg => spec_world fun w => ?_
  have hanswer : ∀ v, Spec t True o (Over 1 o) (push v >>= fun _ => settle 1) fun _ => Over 1 o :=
    fun v => (shifts_push v).bind (Nat.zero_le _) fun _ =>
      (shifts_settle 1).last (by omega) (by simp)
  cases op with
  | minus | plus | negate | typeOf => exact hanswer _
  | invert | discard | delete => exact spec_raise _

theorem shifts_applyBinary (op : BinaryOp) : Shifts t True 2 (applyBinary op) fun _ => 1 := by
  refine fun o => spec_peek 1 fun l => spec_top fun r => spec_world fun w => ?_
  exact (shifts_push _).bind (Nat.zero_le _) fun _ => (shifts_settle 2).last (by omega) (by simp)

theorem shifts_allocArray (n : Nat) : Shifts t True n (change (·.allocArray n)) fun _ => 1 :=
  shifts_change (fun w => w.move_allocArray t n) fun _ _ h =>
    World.over_install (n := 0) (h.mono (by omega)) _

theorem shifts_allocObject (keys : List String) :
    Shifts t True keys.length (change (·.allocObject keys)) fun _ => 1 :=
  shifts_change (fun w => w.move_allocObject t keys) fun _ _ h =>
    World.over_install (n := 0) (h.mono (by omega)) _

end Act

variable {t : Limits} {on : Surroundings}

/-- During the call of a method its arguments, the target and the method are on the stack. -/
theorem shifts_methodCall (hc : on.call.Safe t) {target : Expr} {key : MemberKey} {args : Items}
    (htarget : Shifts t True 0 (target.eval on) fun _ => 1)
    (hkey : Shifts t True 0 (key.eval on) fun _ => 1)
    (hargs : Shifts t True 0 (args.evalArgs on) fun _ => args.length) :
    Shifts t True 0 ((Expr.call (.member target key) args).eval on) fun _ => 1 := by
  intro o
  rw [Expr.eval]
  refine hargs.bind (Nat.le_refl 0) fun _ => ?_
  refine Spec.exactly fun l hl ho => spec_newestAt _ fun given hgiven => Spec.here ?_
  refine htarget.bindAbove (Nat.le_refl 0) ho fun _ => ?_
  refine hkey.bindAbove (Nat.zero_le _) ho fun _ => ?_
  refine Spec.exactly fun l₁ hl₁ ho₁ => spec_peekAt 1 fun receiver hreceiver => ?_
  refine spec_top fun name => Spec.here ?_
  refine (shifts_getMember receiver name).bindAbove (Nat.le_refl 0) ho₁ fun _ => ?_
  refine Spec.exactly fun l₂ hl₂ ho₂ => spec_topAt fun method hmethod => Spec.here ?_
  refine (shifts_nativeOf method).bindAbove (Nat.le_refl 0) ho₂ fun found => ?_
  have hlend : Covers l₂ ([method] ++ (some receiver).toList ++ given) :=
    (hmethod.append (hreceiver.mono hl₂.1)).append (hgiven.mono (hl₁.1.trans hl₂.1))
  cases found with
  | none => exact spec_world fun w => spec_raise _
  | some f =>
    refine ((spec_callSlot hc hlend).lower ho₂ fun _ h => h.1).bind fun _ => ?_
    refine ((shifts_settle _).last (Nat.le_refl _) (by simp)).weaken id (fun _ h => ?_)
      fun _ _ h => h
    exact (hl.trans (hl₁.trans (hl₂.trans h))).mono (by omega)

/-- During the call of anything else its arguments and the function are on the stack. -/
theorem shifts_plainCall (hc : on.call.Safe t) {callee : Expr} {args : Items}
    (hplain : ∀ target key, callee ≠ .member target key)
    (hcallee : Shifts t True 0 (callee.eval on) fun _ => 1)
    (hargs : Shifts t True 0 (args.evalArgs on) fun _ => args.length) :
    Shifts t True 0 ((Expr.call callee args).eval on) fun _ => 1 := by
  intro o
  rw [Expr.eval]
  · refine hargs.bind (Nat.le_refl 0) fun _ => ?_
    refine Spec.exactly fun l hl ho => spec_newestAt _ fun given hgiven => Spec.here ?_
    refine hcallee.bindAbove (Nat.le_refl 0) ho fun _ => ?_
    refine Spec.exactly fun l₁ hl₁ ho₁ => spec_topAt fun f hf => Spec.here ?_
    have hlend : Covers l₁ ([f] ++ (none : Option Slot).toList ++ given) :=
      (hf.append fun _ h => by cases h).append (hgiven.mono hl₁.1)
    refine ((spec_callSlot hc hlend).lower ho₁ fun _ h => h.1).bind fun _ => ?_
    refine ((shifts_settle _).last (Nat.le_refl _) (by simp)).weaken id (fun _ h => ?_)
      fun _ _ h => h
    exact (hl.trans (hl₁.trans h)).mono (by omega)
  · exact hplain

mutual

theorem Expr.shifts_eval (hc : on.call.Safe t) :
    ∀ e : Expr, Shifts t True 0 (e.eval on) fun _ => 1
  | .null | .bool _ | .number _ | .string _ => by
    rw [Expr.eval]
    exact shifts_push _
  | .name x => by
    rw [Expr.eval]
    exact shifts_loadGlobal _ x
  | .paren e => by
    rw [Expr.eval]
    exact e.shifts_eval hc
  | .array elements => fun o => by
    rw [Expr.eval]
    refine (elements.shifts_evalElements hc).bind (Nat.le_refl 0) fun _ => ?_
    exact (shifts_allocArray _).last (by omega) (by simp)
  | .object properties => fun o => by
    rw [Expr.eval]
    refine (properties.shifts_eval hc []).bind (Nat.le_refl 0) fun keys => ?_
    exact (shifts_allocObject keys).last (by omega) (by simp)
  | .member target key => fun o => by
    rw [Expr.eval]
    refine (target.shifts_eval hc).bind (Nat.le_refl 0) fun _ => ?_
    refine (key.shifts_eval hc).bind (Nat.zero_le _) fun _ => ?_
    refine spec_peek 1 fun target => spec_top fun key => ?_
    refine (shifts_getMember target key).bind (Nat.zero_le _) fun _ => ?_
    exact (shifts_settle 2).last (by omega) (by simp)
  | .call callee args => by
    have hcallee := callee.shifts_eval hc
    have hargs := args.shifts_evalArgs hc
    cases callee with
    | member target key =>
      exact shifts_methodCall hc (target.shifts_eval hc) (key.shifts_eval hc) hargs
    | _ => exact shifts_plainCall hc (by simp) hcallee hargs
  | .specialCall => by
    rw [Expr.eval]
    exact shifts_raise _ _
  | .construct callee args => fun o => by
    rw [Expr.eval]
    refine (callee.shifts_eval hc).bind (Nat.le_refl 0) fun _ => ?_
    refine spec_top fun classSlot => ?_
    refine (args.shifts_evalArgs hc).bind (Nat.zero_le _) fun _ => ?_
    refine Spec.exactly fun l hl ho => spec_newestAt _ fun given hgiven => Spec.here ?_
    refine ((spec_construct hc classSlot hgiven).lower ho fun _ h => h.1).bind fun _ => ?_
    refine ((shifts_settle _).last (Nat.le_refl _) (by simp)).weaken id (fun _ h => ?_)
      fun _ _ h => h
    exact (hl.trans h).mono (by omega)
  | .assign target op value => fun o => by
    rw [Expr.eval]
    refine (target.shifts_eval hc).bind (Nat.le_refl 0) fun place => ?_
    refine (value.shifts_eval hc).bind (Nat.zero_le _) fun _ => ?_
    exact (shifts_assignTo on.scope place op).last (by omega) (by simp)
  | .update grows returnsNew arg => fun o => by
    rw [Expr.eval]
    refine (arg.shifts_evalPlace hc).bind (Nat.le_refl 0) fun place => ?_
    exact (shifts_updateAt on.scope place grows returnsNew).last (by omega) (by simp)
  | .unary op arg => fun o => by
    rw [Expr.eval]
    refine (arg.shifts_eval hc).bind (Nat.le_refl 0) fun _ => ?_
    exact (shifts_applyUnary op).last (by omega) (by simp)
  | .binary op left right => fun o => by
    rw [Expr.eval]
    refine (left.shifts_eval hc).bind (Nat.le_refl 0) fun _ => ?_
    refine (right.shifts_eval hc).bind (Nat.zero_le _) fun _ => ?_
    exact (shifts_applyBinary op).last (by omega) (by simp)
  | .logical op left right => fun o => by
    rw [Expr.eval]
    refine (left.shifts_eval hc).bind (Nat.le_refl 0) fun _ => ?_
    refine spec_top fun l => ?_
    split
    · refine (right.shifts_eval hc).bind (Nat.zero_le _) fun _ => ?_
      exact (shifts_settle 1).last (by omega) (by simp)
    · exact over_pure _ (by omega)
  | .other => by
    rw [Expr.eval]
    exact shifts_raise _ _

theorem Items.shifts_evalElements (hc : on.call.Safe t) :
    ∀ items : Items, Shifts t True 0 (items.evalElements on) fun _ => items.length
  | .nil => by
    rw [Items.evalElements]
    exact shifts_pure _
  | .item e rest => fun o => by
    rw [Items.evalElements]
    refine (e.shifts_eval hc).bind (Nat.le_refl 0) fun _ => ?_
    exact (rest.shifts_evalElements hc).last (Nat.zero_le _) (by simp [Items.length])
  | .hole rest => fun o => by
    rw [Items.evalElements]
    refine (shifts_push _).bind (Nat.le_refl 0) fun _ => ?_
    exact (rest.shifts_evalElements hc).last (Nat.zero_le _) (by simp [Items.length])
  | .spread _ => by
    rw [Items.evalElements]
    exact shifts_raise _ _

theorem Items.shifts_evalArgs (hc : on.call.Safe t) :
    ∀ items : Items, Shifts t True 0 (items.evalArgs on) fun _ => items.length
  | .nil => by
    rw [Items.evalArgs]
    exact shifts_pure _
  | .item e rest => fun o => by
    rw [Items.evalArgs]
    refine (e.shifts_eval hc).bind (Nat.le_refl 0) fun _ => ?_
    exact (rest.shifts_evalArgs hc).last (Nat.zero_le _) (by simp [Items.length])
  | .hole rest => fun o => by
    rw [Items.evalArgs]
    refine (shifts_push _).bind (Nat.le_refl 0) fun _ => ?_
    exact (rest.shifts_evalArgs hc).last (Nat.zero_le _) (by simp [Items.length])
  | .spread _ => by
    rw [Items.evalArgs]
    exact shifts_raise _ _

theorem Properties.shifts_eval (hc : on.call.Safe t) :
    ∀ (properties : Properties) (keys : List String),
      Shifts t True keys.length (properties.eval on keys) fun keys => keys.length
  | .nil, keys => fun o => by
    rw [Properties.eval]
    exact over_pure _ (Nat.le_refl _)
  | .keyed key value rest, keys => fun o => by
    rw [Properties.eval]
    split
    · exact spec_raise _
    · refine (value.shifts_eval hc).bind (Nat.zero_le _) fun _ => ?_
      refine (shifts_addProperty keys _).bind (by omega) fun keys => ?_
      exact (rest.shifts_eval hc keys).last (by omega) (by simp)
  | .shorthand name rest, keys => fun o => by
    rw [Properties.eval]
    refine (shifts_loadGlobal on.scope name).bind (Nat.zero_le _) fun _ => ?_
    refine (shifts_addProperty keys _).bind (by omega) fun keys => ?_
    exact (rest.shifts_eval hc keys).last (by omega) (by simp)
  | .spread _, _ => by
    rw [Properties.eval]
    exact shifts_raise _ _
  | .other _, _ => by
    rw [Properties.eval]
    exact shifts_raise _ _

theorem MemberKey.shifts_eval (hc : on.call.Safe t) :
    ∀ key : MemberKey, Shifts t True 0 (key.eval on) fun _ => 1
  | .name s => by
    rw [MemberKey.eval]
    exact shifts_push _
  | .computed e => by
    rw [MemberKey.eval]
    exact e.shifts_eval hc
  | .hidden => by
    rw [MemberKey.eval]
    exact shifts_raise _ _

theorem Target.shifts_eval (hc : on.call.Safe t) :
    ∀ target : Target, Shifts t True 0 (target.eval on) Location.width
  | .name x => by
    rw [Target.eval]
    exact fun _ => over_pure _ (Nat.le_refl 0)
  | .member target key => fun o => by
    rw [Target.eval]
    refine (target.shifts_eval hc).bind (Nat.le_refl 0) fun _ => ?_
    refine (key.shifts_eval hc).bind (Nat.zero_le _) fun _ => ?_
    exact spec_peek 1 fun t => spec_top fun k => over_pure _ (Nat.le_refl 2)
  | .other => by
    rw [Target.eval]
    exact shifts_raise _ _

theorem Expr.shifts_evalPlace (hc : on.call.Safe t) :
    ∀ e : Expr, Shifts t True 0 (e.evalPlace on) Location.width
  | .name x => by
    rw [Expr.evalPlace]
    exact fun _ => over_pure _ (Nat.le_refl 0)
  | .member target key => fun o => by
    rw [Expr.evalPlace]
    refine (target.shifts_eval hc).bind (Nat.le_refl 0) fun _ => ?_
    refine (key.shifts_eval hc).bind (Nat.zero_le _) fun _ => ?_
    exact spec_peek 1 fun t => spec_top fun k => over_pure _ (Nat.le_refl 2)
  | .paren e => by
    rw [Expr.evalPlace]
    exact e.shifts_evalPlace hc
  | .null | .bool _ | .number _ | .string _ | .array _ | .object _ | .call _ _ | .specialCall
  | .construct _ _ | .assign _ _ _ | .update _ _ _ | .unary _ _ | .binary _ _ _ | .logical _ _ _
  | .other => by
    simp only [Expr.evalPlace]
    exact shifts_raise _ _

end

/-! ## Statements -/

theorem Declarators.shifts_exec (hc : on.call.Safe t) (declarators : Declarators) :
    Shifts t True 0 (declarators.exec on) fun _ => 0 := by
  induction declarators with
  | nil =>
    rw [Declarators.exec]
    exact shifts_pure _
  | name x init rest ih =>
    intro o
    cases init with
    | some e =>
      rw [Declarators.exec]
      refine (e.shifts_eval hc).bind (Nat.le_refl 0) fun _ => ?_
      exact (shifts_declare on.scope x).bind (by omega) fun _ => ih.last (Nat.zero_le _) (by simp)
    | none =>
      rw [Declarators.exec]
      refine (shifts_push _).bind (Nat.le_refl 0) fun _ => ?_
      exact (shifts_declare on.scope x).bind (by omega) fun _ => ih.last (Nat.zero_le _) (by simp)
  | pattern rest ih =>
    rw [Declarators.exec]
    exact shifts_raise _ _

theorem Expr.shifts_test (hc : on.call.Safe t) (e : Expr) :
    Shifts t True 0 (e.test on) fun _ => 0 := by
  intro o
  refine (e.shifts_eval hc).bind (Nat.le_refl 0) fun _ => spec_top fun s => ?_
  exact shifts_drop.bind (by omega) fun _ => over_pure _ (Nat.zero_le _)

mutual

theorem Statement.shifts_exec (hc : on.call.Safe t) :
    ∀ s : Statement, Shifts t True 1 (s.exec on) fun _ => 1
  | .expression e => fun o => by
    rw [Statement.exec]
    refine (e.shifts_eval hc).bind (Nat.zero_le _) fun _ => ?_
    exact (shifts_settle 1).last (by omega) (by simp)
  | .declare declarators => by
    rw [Statement.exec]
    exact (declarators.shifts_exec hc).weaken id (Nat.zero_le _) (by simp)
  | .block body => by
    rw [Statement.exec]
    exact body.shifts_exec hc
  | .branch test yes => fun o => by
    rw [Statement.exec]
    refine (test.shifts_test hc).bind (Nat.zero_le _) fun go => ?_
    cases go with
    | true => exact yes.shifts_exec hc o
    | false => exact over_pure _ (Nat.le_refl 1)
  | .choice test yes no => fun o => by
    rw [Statement.exec]
    refine (test.shifts_test hc).bind (Nat.zero_le _) fun go => ?_
    cases go with
    | true => exact yes.shifts_exec hc o
    | false => exact no.shifts_exec hc o
  | .loop test body => fun o => by
    rw [Statement.exec]
    exact Spec.repeatWhile ((test.shifts_test hc).last (Nat.zero_le _) (by simp))
      (body.shifts_exec hc o) _
  | .empty => fun o => by
    rw [Statement.exec]
    exact over_pure _ (Nat.le_refl 1)
  | .other => by
    rw [Statement.exec]
    exact shifts_raise _ _

theorem Statements.shifts_exec (hc : on.call.Safe t) :
    ∀ body : Statements, Shifts t True 1 (body.exec on) fun _ => 1
  | .nil => fun o => by
    rw [Statements.exec]
    exact over_pure _ (Nat.le_refl 1)
  | .cons s rest => fun o => by
    rw [Statements.exec]
    exact (s.shifts_exec hc).bind (Nat.le_refl 1) fun _ =>
      (rest.shifts_exec hc).last (Nat.le_refl 1) (by simp)

end

namespace Act

theorem shifts_execProgram (hc : on.call.Safe t) (program : Statements) :
    Shifts t True 0 (execProgram on program) fun _ => 1 :=
  fun _ => (shifts_push _).bind (Nat.le_refl 0) fun _ =>
    (program.shifts_exec hc).last (Nat.le_refl 1) (by simp)

theorem shifts_execScript (hc : on.call.Safe t) (code : String) :
    Shifts t True 0 (execScript on code) fun _ => 1 := by
  intro o
  unfold execScript
  split
  · exact (shifts_execProgram hc _) o
  · exact spec_raise _

/-- How many entries the outcome of something that may fail leaves, if it leaves `n` when it does
not. -/
def whenOkay {ε α : Type} (n : Nat) : Except ε α → Nat
  | .ok _ => n
  | .error _ => 0

theorem Shifts.recover {α : Type} {may : Prop} {x : Act α} {n : Nat}
    (hx : Shifts t True 0 x fun _ => n) : Shifts t may 0 (recover x) (whenOkay n) := by
  refine Shifts.of_exact fun o => ((hx o).here.recover).weaken id (fun _ h => h) fun r l h => ?_
  cases r with
  | ok a => exact h
  | error fault => exact h ▸ over_refl o

theorem shifts_runScript {may : Prop} (hc : on.call.Safe t) (code : String) :
    Shifts t may 0 (runScript on code) (whenOkay 1) :=
  (shifts_execScript hc code).recover

end Act
end Enclave
