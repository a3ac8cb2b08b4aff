import Enclave.Proofs.Host.Native
import Enclave.Proofs.Script.Evaluate
import Enclave.Proofs.Script.Sites

/-! # Names come from declarators

A script in a bare world binds the names of the declarators that it comes to, as soon as their
initialisers have come to their ends, and no others. An assignment or an update looks its name up and
fails if there is none.
-/
namespace Enclave

open Act
open World (Bare)

/-- Everything is allowed. -/
def Allowance.full (scope : ScopeId) : Allowance :=
  ⟨scope, fun _ => True, True⟩

namespace Site

variable {on : Surroundings} {q q' : Site × Machine} {m m' : Machine} {t t' : Site}

/-- Whatever evaluation is at, it goes by steps. -/
theorem stays (on : Surroundings) (t : Site) : Stays (Allowance.full on.scope) (t.act on) :=
  t.stays_act fun _ => trivial

/-- Where evaluation comes to next, it comes to by steps. -/
theorem Comes.leads (h : Comes on (t, m) (t', m')) (hb : m.world.Bare) :
    m.world.Leads (.full on.scope) m'.world :=
  h.leads_of hb fun _ => trivial

/-- Wherever evaluation gets to, it gets to by steps. -/
theorem Reaches.leads (h : Reaches on q q') (hb : q.2.world.Bare) :
    q.2.world.Leads (.full on.scope) q'.2.world :=
  h.leads_of hb fun _ => trivial

/-! ## Declarators bind -/

variable {t₀ : Limits} {o : List Slot} {n k : Nat} {x : String}

/-- The machine is in good order with `n` entries above a base, its world is bare, and the scope is
open. -/
structure Ready (scope : ScopeId) (t₀ : Limits) (o : List Slot) (n : Nat) (m : Machine) : Prop where
  good : m.Good t₀ o
  above : Over n o m.world.stack
  bare : m.world.Bare
  isOpen : (m.world.scope? scope).isSome = true

theorem Ready.mono (h : Ready on.scope t₀ o n m) (hk : k ≤ n) : Ready on.scope t₀ o k m :=
  ⟨h.good, h.above.mono hk, h.bare, h.isOpen⟩

theorem Ready.after {α : Type} {z : Act α} {b : α → Nat} {r : α} (h : Ready on.scope t₀ o k m)
    (hz : Shifts t₀ True n z b) (hz' : Stays (.full on.scope) z) (hrun : z m = .done r m')
    (hn : n ≤ k) : Ready on.scope t₀ o (b r + (k - n)) m' := by
  obtain ⟨hgood, hover⟩ := Spec.after (hz.spec hn o) h.good h.above hrun
  have hleads := hz'.leads h.bare hrun
  exact ⟨hgood, hover, hleads.bare h.bare, hleads.isOpen h.isOpen⟩

/-- Where there is an entry on the stack, a declaration binds its name. -/
theorem Ready.declares (h : Ready on.scope t₀ o (n + 1) m) (x : String) :
    ∃ m', declare on.scope x m = .done () m' ∧ m'.world.Binds on.scope x := by
  obtain ⟨table, htable⟩ := Option.isSome_iff_exists.mp h.isOpen
  obtain ⟨s, rest, hs⟩ : ∃ s rest, m.world.stack = s :: rest := by
    have hlength := h.above.2
    cases hs : m.world.stack with
    | nil => simp [hs] at hlength
    | cons s rest => exact ⟨s, rest, rfl⟩
  refine ⟨_, (declare_eq on.scope x m).trans (if_pos (h.bare.canWrite _)), ?_⟩
  have hx := (World.binds_exchangeGlobal hs htable x x).mpr (.inl rfl)
  exact (World.leads_drop (.full on.scope) _).binds hx

/-- The sites that evaluation comes to on its way to a declarator. -/
def isStatement : Site → Bool
  | declarators _ | statement _ | statements _ | rounds _ _ _ | program _ => true
  | _ => false

/-- How many entries such a site has for the value of the last expression statement. -/
def room : Site → Nat
  | program _ => 0
  | _ => 1

theorem Comes.isStatement (h : Comes on (t, m) (t', m')) (ht : t'.isStatement = true) :
    t.isStatement = true := by
  cases h <;> first | rfl | cases ht

/-- From one such site to the next everything stays in good order. -/
theorem Comes.ready (hc : on.call.Safe t₀) (h : Comes on (t, m) (t', m'))
    (ht : t'.isStatement = true) (hm : Ready on.scope t₀ o t.room m) :
    Ready on.scope t₀ o t'.room m' := by
  have htest : ∀ (e : Expr) {go m₁}, e.test on m = .done go m₁ → 1 ≤ t.room →
      Ready on.scope t₀ o 1 m₁ := fun e go m₁ hrun hroom =>
    (hm.after (e.shifts_test hc) (e.stays_test fun _ => trivial) hrun (Nat.zero_le _)).mono
      (by omega)
  have hexec : ∀ (s : Statement) {m₁ m₂}, Ready on.scope t₀ o 1 m₁ → s.exec on m₁ = .done () m₂ →
      Ready on.scope t₀ o 1 m₂ := fun s m₁ m₂ h₁ hrun =>
    h₁.after (s.shifts_exec hc) (stays on (.statement s)) hrun (Nat.le_refl 1)
  have hdeclare : ∀ {x m₁ m₂}, Ready on.scope t₀ o 2 m₁ → declare on.scope x m₁ = .done () m₂ →
      Ready on.scope t₀ o 1 m₂ := fun {x m₁ m₂} h₁ hrun =>
    h₁.after (shifts_declare on.scope x)
      (fun _ => staysAt_declare (a := .full on.scope) (.inl trivial)) hrun (by omega)
  cases h with
  | declaration | block | loop | first => exact hm
  | branchYes e _ hrun | choiceYes e _ _ hrun | choiceNo e _ _ hrun | roundBody e _ _ hrun =>
    exact htest e hrun (Nat.le_refl 1)
  | nextRound e body _ hrun hs => exact hexec body (htest e hrun (Nat.le_refl 1)) hs
  | next s _ hs => exact hexec s hm hs
  | start _ hn => exact hm.after (shifts_push .null) (stays_push .null) hn (Nat.le_refl 0)
  | afterInitial _ e _ he hd =>
    exact hdeclare (hm.after (e.shifts_eval hc) (stays on (.expr e)) he (Nat.zero_le _)) hd
  | afterName _ _ hn hd =>
    exact hdeclare (hm.after (shifts_push .null) (stays_push .null) hn (Nat.zero_le _)) hd
  | _ => cases ht

/-- Where the work at such a site ends, the work at the site before it goes on. -/
theorem Comes.ends (h : Comes on (t, m) (t', m')) (ht : t'.isStatement = true)
    (hb : m.world.Bare) :
    (t'.act on m').machine.world.Leads (.full on.scope) (t.act on m).machine.world := by
  have hsame : t.act on m = t'.act on m' →
      (t'.act on m').machine.world.Leads (.full on.scope) (t.act on m).machine.world := fun h =>
    h ▸ .refl _
  have hbody : ∀ (s : Statement) {m₁ : Machine}, m₁.world.Bare →
      (s.exec on m₁).machine.world.Bare := fun s m₁ h₁ =>
    (stays on (.statement s) m₁ h₁).leads.bare h₁
  cases h with
  | declaration | block | loop =>
    refine hsame ?_
    simp only [act, Statement.exec]
  | branchYes _ _ hrun | choiceYes _ _ _ hrun | choiceNo _ _ _ hrun =>
    refine hsame ?_
    rw [act, Statement.exec]
    exact bind_done hrun
  | nextRound _ _ _ hrun hs =>
    refine hsame ?_
    rw [act, repeatWhile_succ]
    exact (bind_done hrun).trans (bind_done hs)
  | next _ _ hs =>
    refine hsame ?_
    rw [act, Statements.exec]
    exact bind_done hs
  | start _ hn => exact hsame (bind_done hn)
  | afterInitial _ _ _ he hd | afterName _ _ he hd =>
    refine hsame ?_
    rw [act, Declarators.exec]
    exact (bind_done he).trans (bind_done hd)
  | first s rest =>
    rw [act, act, Statements.exec]
    exact leads_bind (hbody s hb) fun _ => stays on (.statements rest)
  | roundBody e body patience hrun =>
    have hb' : m'.world.Bare := ((Comes.roundBody e body patience hrun).leads hb).bare hb
    rw [act, act, repeatWhile_succ, bind_done hrun]
    exact leads_bind (hbody body hb') fun _ => stays on (.rounds e body patience)
  | _ => cases ht

/-- A name is bound at the end if evaluation gets to a declarator of it whose initialiser comes to its
end. -/
theorem Declares.binds (hc : on.call.Safe t₀) (hd : Declares on q x)
    (hm : Ready on.scope t₀ o q.1.room q.2) :
    (q.1.act on q.2).machine.world.Binds on.scope x := by
  obtain ⟨init, rest, m₁, hr, he⟩ := hd
  suffices h : q.1.isStatement = true ∧ (Ready on.scope t₀ o q.1.room q.2 →
      (q.1.act on q.2).machine.world.Binds on.scope x) from h.2 hm
  clear hm
  induction hr using Relation.ReflTransGen.head_induction_on with
  | refl =>
    refine ⟨rfl, fun hm => ?_⟩
    -- However the initial value came to the stack, the declaration takes it off.
    have hend : ∀ {z : Act Unit} {m₂}, z m₁ = .done () m₂ → Ready on.scope t₀ o 2 m₂ →
        ((z >>= fun _ => declare on.scope x >>= fun _ => rest.exec on) m₁).machine.world.Binds
          on.scope x := by
      intro z m₂ hz hm₂
      obtain ⟨m₃, hdeclare, hx⟩ := hm₂.declares x
      rw [bind_done hz, bind_done hdeclare]
      have hb₃ : m₃.world.Bare :=
        ((staysAt_declare (a := .full on.scope) (.inl trivial)).leads hm₂.bare hdeclare).bare
          hm₂.bare
      exact (stays on (.declarators rest) m₃ hb₃).leads.binds hx
    cases init with
    | some e =>
      obtain ⟨m₂, hrun⟩ := he e rfl
      rw [act, Declarators.exec]
      exact hend hrun (hm.after (e.shifts_eval hc) (stays on (.expr e)) hrun (Nat.zero_le _))
    | none =>
      rw [act, Declarators.exec]
      exact hend rfl (hm.after (shifts_push .null) (stays_push .null) rfl (Nat.zero_le _))
  | head h _ ih =>
    obtain ⟨hq, hbinds⟩ := ih
    refine ⟨h.isStatement hq, fun hm => ?_⟩
    exact (h.ends hq hm.bare).binds (hbinds (h.ready hc hq hm))

end Site

/-! ## Assignments and updates -/

/-- The name that an update writes, if it is none of a member. -/
def Expr.named? : Expr → Option String
  | .name x => some x
  | .paren e => e.named?
  | _ => none

namespace Act

variable {on : Surroundings} {m m' : Machine} {x : String} {scope : ScopeId}

/-- An assignment to a name that is not bound fails with the name. -/
theorem assignTo_unbound {op : AssignOp} (hop : op ≠ .other)
    (hr : m.world.canRead (.scope scope) = true) (hx : ¬ m.world.Binds scope x) :
    ∃ m', assignTo scope (.global x) op m = .raised (.unbound x) m' := by
  cases op with
  | set =>
    let m₁ : Machine := { m with world := m.world.share m.world.top }
    have hr₁ : m₁.world.canRead (.scope scope) = true :=
      ((World.Change.share m.world.top).canRead m.world _).trans hr
    have hx₁ : ¬ m₁.world.Binds scope x := fun h =>
      (World.leads_share ⟨scope, fun _ => False, True⟩ m.world m.world.top).binds_of h |>.elim hx id
    have hshare : share m.world.top m = .done () m₁ := rfl
    exact ⟨m₁, (bind_done (top_eq m)).trans
      ((bind_done hshare).trans (bind_raised (storeGlobal_unbound hr₁ hx₁)))⟩
  | add | subtract | multiply =>
    exact ⟨m, (bind_done (top_eq m)).trans (bind_raised (loadGlobal_unbound hr hx))⟩
  | other => exact absurd rfl hop

theorem updateAt_unbound (grows returnsNew : Bool) (hr : m.world.canRead (.scope scope) = true)
    (hx : ¬ m.world.Binds scope x) :
    updateAt scope (.global x) grows returnsNew m = .raised (.unbound x) m :=
  bind_raised (loadGlobal_unbound hr hx)

theorem evalPlace_named {e : Expr} (he : e.named? = some x) (m : Machine) :
    e.evalPlace on m = .done (.global x) m := by
  induction e using Expr.named?.induct with
  | case1 y =>
    cases he
    rw [Expr.evalPlace]
    rfl
  | case2 e ih =>
    rw [Expr.evalPlace]
    exact ih he
  | case3 e hname hparen => cases e <;> simp_all [Expr.named?]

/-- The run of the program ends with the fault that the name is not bound, and it is not. -/
def EndsUnbound (on : Surroundings) (program : Statements) (m : Machine) (x : String) : Prop :=
  ∃ m', recover (execProgram on program) m = .done (.error (.unbound x)) m' ∧
    ¬ m'.world.Binds on.scope x

theorem endsUnbound_of_reaches {program : Statements} {e : Expr} {m₁ m₂ : Machine}
    (hb : m.world.Bare) (hr : Site.Reaches on (.program program, m) (.expr e, m₁))
    (hx : ¬ m₁.world.Binds on.scope x) (hrun : e.eval on m₁ = .raised (.unbound x) m₂) :
    EndsUnbound on program m x := by
  have hstays : StaysAt ⟨on.scope, fun _ => False, True⟩ (e.eval on) m₁ :=
    e.stays_eval (fun _ => trivial) m₁
  have hleads := (hstays ((hr.leads hb).bare hb)).leads
  rw [hrun] at hleads
  have hwhole : execProgram on program m = .raised (.unbound x) m₂ := hr.raised hrun
  refine ⟨{ m₂ with world := m₂.world.unwind m.world.stack.length }, ?_, fun hx₂ => ?_⟩
  · rw [recover_eq, hwhole]
  · exact (hleads.binds_of hx₂).elim hx id

/-- **Only declarators bind names.** A program is run in a world without native functions, in an open
scope that may hold anything else. Whether it ends with or without a fault, the names that are bound
then are those that were bound before and those of the declarators that evaluation came to and whose
initialisers came to their ends. Nothing that evaluation comes to unbinds a name. An assignment to a
name that is not bound, as soon as its right-hand side has a value, and an update of one end the run
with a fault for the name, which is not bound by it. Only a loop that goes on for too long stops the run
in another way. -/
theorem binds_exactly_declared (b : Budget) (scope : ScopeId) (program : Statements) {t : Limits}
    {m : Machine} (hg : m.Good t m.world.stack) (hb : m.world.Bare)
    (ho : (m.world.scope? scope).isSome = true) :
    let on := b.surroundings scope
    (∀ x, (recover (execProgram on program) m).machine.world.Binds scope x ↔
      m.world.Binds scope x ∨ Site.Declares on (.program program, m) x) ∧
    (∀ q x, Site.Reaches on (.program program, m) q → q.2.world.Binds scope x →
      (q.1.act on q.2).machine.world.Binds scope x) ∧
    (∀ x op e m₁ m₂, Site.Reaches on (.program program, m) (.expr (.assign (.name x) op e), m₁) →
      op ≠ .other → ¬ m₁.world.Binds scope x → e.eval on m₁ = .done () m₂ →
      EndsUnbound on program m x) ∧
    (∀ x grows returnsNew e m₁,
      Site.Reaches on (.program program, m) (.expr (.update grows returnsNew e), m₁) →
      e.named? = some x → ¬ m₁.world.Binds scope x → EndsUnbound on program m x) ∧
    ∀ halt, recover (execProgram on program) m = .stopped halt → halt.why = .exhausted := by
  intro on
  let a : Allowance := ⟨on.scope, Site.Declares on (.program program, m), True⟩
  have hprogram : StaysAt a (execProgram on program) m :=
    staysAt_execProgram program (fun _ => trivial) fun _ hx => hx
  have hstays := hprogram.recover hb
  refine ⟨fun x => ⟨fun hx => hstays.leads.binds_of hx, ?_⟩, fun q x hr hx => ?_, ?_, ?_, ?_⟩
  · rintro (hx | hx)
    · exact hstays.leads.binds hx
    · have hready : Site.Ready scope t m.world.stack 0 m := ⟨hg, over_refl _, hb, ho⟩
      have hend := hx.binds (b.safe_surroundings t scope) hready
      exact (leads_recover (a := a) (execProgram on program) m).binds hend
  · exact (Site.stays on q.1 q.2 ((hr.leads hb).bare hb)).leads.binds hx
  · intro x op e m₁ m₂ hr hop hx hrun
    have hb₁ := (hr.leads hb).bare hb
    have hstays : Stays ⟨on.scope, fun _ => False, True⟩ (e.eval on) :=
      e.stays_eval fun _ => trivial
    have hleads := hstays.leads hb₁ hrun
    obtain ⟨m₃, hraised⟩ := assignTo_unbound hop ((hleads.bare hb₁).canRead (.scope scope))
      fun hx₂ => (hleads.binds_of hx₂).elim hx id
    have heval : (Expr.assign (.name x) op e).eval on m₁ = .raised (.unbound x) m₃ := by
      rw [Expr.eval, Target.eval]
      exact (bind_done rfl).trans ((bind_done hrun).trans hraised)
    exact endsUnbound_of_reaches hb hr hx heval
  · intro x grows returnsNew e m₁ hr he hx
    have hread := ((hr.leads hb).bare hb).canRead (.scope scope)
    have heval : (Expr.update grows returnsNew e).eval on m₁ = .raised (.unbound x) m₁ := by
      rw [Expr.eval]
      exact (bind_done (evalPlace_named he m₁)).trans (updateAt_unbound grows returnsNew hread hx)
    exact endsUnbound_of_reaches hb hr hx heval
  · intro halt hstopped
    rw [hstopped] at hstays
    exact hstays.1

/-- One name is declared, and another one is written that is not. -/
theorem binds_exactly_declared_then_fails :
    let on : Surroundings := (⟨0, 0⟩ : Budget).surroundings 0
    let program : Statements := .cons (.declare (.name "y" (some .null) .nil))
      (.cons (.expression (.assign (.name "x") .set .null)) .nil)
    let m : Machine := ⟨World.initial .default, []⟩
    m.Good ⟨0, False, [], True⟩ m.world.stack ∧ m.world.Bare ∧
      (m.world.scope? 0).isSome = true ∧
      (recover (execProgram on program) m).machine.world.Binds 0 "y" ∧
      EndsUnbound on program m "x" := by
  intro on program m
  have hg : m.Good ⟨0, False, [], True⟩ m.world.stack := Machine.good_initial .default False True
  have hb : m.world.Bare := World.bare_initial .default
  have ho : (m.world.scope? 0).isSome = true := rfl
  obtain ⟨hiff, -, hassign, -, -⟩ :=
    binds_exactly_declared ⟨0, 0⟩ 0 program hg hb ho
  let m₁ : Machine := ⟨m.world.push .null, []⟩
  let m₂ : Machine := ⟨m₁.world.push .null, []⟩
  let m₃ : Machine := ⟨(m₂.world.exchangeGlobal 0 "y").drop, []⟩
  have hdeclare : (Statement.declare (.name "y" (some .null) .nil)).exec on m₁ = .done () m₃ := by
    have hy : declare 0 "y" m₂ = .done () m₃ := (declare_eq 0 "y" m₂).trans (if_pos rfl)
    rw [Statement.exec, Declarators.exec]
    refine (bind_done (eval_null on m₁)).trans ((bind_done hy).trans ?_)
    rw [Declarators.exec]
    rfl
  have hx : ¬ m₃.world.Binds 0 "x" := by
    intro hx
    have hleads := World.leads_drop ⟨0, fun _ => False, True⟩ (m₂.world.exchangeGlobal 0 "y")
    have hexchanged := (hleads.binds_of hx).resolve_right id
    have hstack : m₂.world.stack = [.null, .null] := rfl
    have hscope : m₂.world.scope? 0 = some [] := rfl
    rcases (World.binds_exchangeGlobal hstack hscope "y" "x").mp hexchanged with hname | hbound
    · exact absurd hname (by decide)
    · exact Bool.false_ne_true hbound
  have hreach : Site.Reaches on (.program program, m) (.statements program, m₁) :=
    .single (.start program rfl)
  refine ⟨hg, hb, ho, (hiff "y").mpr (.inr ⟨some .null, .nil, m₁, ?_, ?_⟩), ?_⟩
  · exact (hreach.tail (.first _ _ _)).tail (.declaration _ _)
  · rintro _ ⟨⟩
    exact ⟨m₂, eval_null on m₁⟩
  · refine hassign "x" .set .null m₃ _ ?_ (by decide) hx (eval_null on m₃)
    exact ((hreach.tail (.next _ _ hdeclare)).tail (.first _ _ _)).tail (.expression _ _)

end Act
end Enclave
