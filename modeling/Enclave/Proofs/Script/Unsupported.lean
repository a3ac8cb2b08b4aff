import Enclave.Host.Native
import Enclave.Proofs.Script.Refusals

/-! # Unsupported syntax

What becomes of a program that needs a rule that the evaluator does not have. A form without a rule
ends the run and nothing else does so under its name. Only binary operators are different: one
without a rule gives the number that is none.
-/
namespace Enclave

open Act

/-- Does the evaluator have a rule for the operator? -/
def BinaryOp.isKnown : BinaryOp → Bool
  | add | subtract | multiply | divide | remainder | equal | unequal | less | lessEqual | greater
  | greaterEqual => true
  | power | coalesce | bitAnd | bitOr | bitXor | shiftLeft | shiftRight | shiftRightUnsigned
  | contains | instanceOf => false

theorem World.binary_unknown {op : BinaryOp} (ho : op.isKnown = false) (w : World) (l r : Slot) :
    w.binary op l r = .number Number.notANumber := by
  cases op <;> first | rfl | cases ho

namespace Act

variable {on : Surroundings} {program : Statements} {m m' : Machine}

/-- The program's run ends with the form as its fault. -/
def Refuses (on : Surroundings) (program : Statements) (m : Machine) (form : Form) : Prop :=
  ∃ m', recover (execProgram on program) m = .done (.error (.unsupported form)) m'

/-- The operator takes its two operands off the stack for the number that is none. -/
def Guesses (op : BinaryOp) (m : Machine) : Prop :=
  ∃ m', applyBinary op m = .done () m' ∧ m'.moments = m.moments ∧
    m'.world.stack = .scalar (.number Number.notANumber) :: m.world.stack.drop 2

theorem guesses_of_unknown {op : BinaryOp} (ho : op.isKnown = false) (m : Machine) :
    Guesses op m := by
  refine ⟨_, rfl, rfl, ?_⟩
  dsimp only
  rw [World.binary_unknown ho]
  rfl

theorem refuses_iff {form : Form} :
    Refuses on program m form ↔ ∃ m', execProgram on program m = .raised (.unsupported form) m' := by
  unfold Refuses
  rw [recover_eq]
  cases execProgram on program m with
  | done | stopped => simp
  | raised fault m' => simp

/-- **Forms without a rule.** Whatever the program and wherever it starts: if evaluation gets to a
form that the evaluator has no rule for, the run ends with this form as its fault. If it ends so and
native functions refuse nothing, then evaluation has got to such a form. A binary operator that
evaluation gets to and that has no rule does not end the run: it gives the number that is none. -/
theorem refuses_unknown (on : Surroundings) (program : Statements) (m : Machine) :
    (∀ q form, Site.Reaches on (.program program, m) q → q.1.unknown? = some form →
      Refuses on program m form) ∧
    (on.call.Answers → ∀ form, Refuses on program m form →
      ∃ q, Site.Reaches on (.program program, m) q ∧ q.1.unknown? = some form) ∧
    (∀ op m', Site.Reaches on (.program program, m) (.binary op, m') → op.isKnown = false →
      Guesses op m') := by
  refine ⟨fun q form hq hu => ?_, fun hc form hr => ?_, fun op m' _ ho => ?_⟩
  · exact refuses_iff.mpr ⟨q.2, hq.raised (Site.raised_of_unknown hu q.2)⟩
  · obtain ⟨m', hx⟩ := refuses_iff.mp hr
    exact blames_execProgram hc program m form m' hx
  · exact guesses_of_unknown ho m'

/-- The power of two nulls, and then a statement that the evaluator has no rule for. -/
theorem refuses_unknown_after_power :
    let on : Surroundings := (⟨0, 0⟩ : Budget).surroundings 0
    let program : Statements :=
      .cons (.expression (.binary .power .null .null)) (.cons .other .nil)
    let m : Machine := ⟨World.initial .default, []⟩
    Refuses on program m .statement ∧
      (∃ q, Site.Reaches on (.program program, m) q ∧ q.1.unknown? = some .statement) ∧
      ∃ m', Site.Reaches on (.program program, m) (.binary .power, m') ∧ Guesses .power m' := by
  intro on program m
  obtain ⟨m₁, hm₁⟩ : ∃ m₁, push .null m = .done () m₁ := ⟨_, rfl⟩
  obtain ⟨m₂, hl⟩ : ∃ m₂, Expr.null.eval on m₁ = .done () m₂ := ⟨_, eval_null on m₁⟩
  obtain ⟨m₃, hr⟩ : ∃ m₃, Expr.null.eval on m₂ = .done () m₃ := ⟨_, eval_null on m₂⟩
  obtain ⟨m₄, hs⟩ : ∃ m₄,
      (Statement.expression (.binary .power .null .null)).exec on m₁ = .done () m₄ := by
    rw [Statement.exec, Expr.eval]
    exact ⟨_, bind_done ((bind_done hl).trans ((bind_done hr).trans rfl))⟩
  have hpower : Site.Reaches on (.program program, m) (.binary .power, m₃) :=
    .head (.start _ hm₁) <| .head (.first _ _ _) <| .head (.expression _ _) <|
      .single (.binaryApply .power .null .null hl hr)
  have hother : Site.Reaches on (.program program, m) (.statement .other, m₄) :=
    .head (.start _ hm₁) <| .head (.next _ _ hs) <| .single (.first _ _ _)
  obtain ⟨hrefuses, hreaches, hguesses⟩ := refuses_unknown on program m
  have hr := hrefuses _ .statement hother rfl
  have hc : on.call.Answers := fun _ _ _ _ _ => never_stop _
  exact ⟨hr, hreaches hc _ hr, m₃, hpower, hguesses .power m₃ hpower rfl⟩

end Act
end Enclave
