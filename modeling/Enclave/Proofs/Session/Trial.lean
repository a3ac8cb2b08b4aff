import Enclave.Proofs.Script.Heights
import Enclave.Proofs.Script.Sites
import Enclave.Proofs.World.Layered
import Enclave.Session.Trial

/-! # Scripts that leak nothing

Scripts without a plain assignment to a member are run one after the other without a host. Compound
assignments and updates put only scalars into members, so all references go on leading to older cells.
A script leaves its value on the stack, or nothing if it ends with a fault, and so between two scripts
only globals own cells.
-/
namespace Enclave

/-- Is the text that of a script with a plain assignment to a member? -/
def Script.setsMember (code : String) : Bool :=
  (Script.read? code).any Statements.setsMember

namespace Act

variable {on : Surroundings} {code : String}

theorem stays_execScript (h : Script.setsMember code = false) :
    Stays ⟨on.scope, fun _ => True, False⟩ (execScript on code) := by
  intro m
  unfold execScript
  split
  · rename_i program hread
    refine staysAt_execProgram program (fun hset => ?_) fun _ _ => trivial
    simp [Script.setsMember, hread, hset] at h
  · exact stays_raise _ m

end Act

namespace Trial

open Act

variable {α β : Type} {on : Surroundings} {t : Limits} {code : String} {m : Machine}

/-! ## One script -/

/-- A script and the drop of its value leave the stack as it was. -/
theorem shifts_runOne (hs : on.call.Safe t) (code : String) :
    Shifts t False 0 (runOne on code) fun _ => 0 := by
  intro o
  refine (shifts_runScript hs code).bind (Nat.le_refl 0) fun outcome => ?_
  cases outcome with
  | ok =>
    refine spec_top fun s => spec_world fun w => shifts_drop.bind (Nat.le_refl 1) fun _ => ?_
    exact (shifts_pure _).bind (Nat.le_refl 0) fun _ => spec_world fun w => over_pure _ (Nat.le_refl 0)
  | error fault =>
    exact (shifts_pure _).bind (Nat.le_refl 0) fun _ => spec_world fun w => over_pure _ (Nat.le_refl 0)

theorem atMost_runOne (ht : on.call.Tidy) (code : String) :
    AtMost 0 (runOne on code) fun _ => 0 := by
  have hpure : ∀ outcome : Except Fault (Shown × String), AtMost 0 (pure outcome) fun _ => 0 :=
    fun outcome => atMost_pure outcome (Nat.le_refl 0)
  refine (atMost_runScript ht code).bind (Nat.le_refl 0) fun outcome => ?_
  cases outcome with
  | ok =>
    refine atMost_top fun s => atMost_world fun w => atMost_drop.bind (Nat.le_refl 1) fun _ => ?_
    refine (hpure _).bind (Nat.zero_le _) fun _ => ?_
    exact atMost_world fun w => atMost_pure _ (Nat.le_refl 0)
  | error fault =>
    refine (hpure _).bind (Nat.zero_le _) fun _ => ?_
    exact atMost_world fun w => atMost_pure _ (Nat.le_refl 0)

theorem stays_runOne (h : Script.setsMember code = false) :
    Stays ⟨on.scope, fun _ => True, False⟩ (runOne on code) := by
  refine Stays.bind (fun m => (stays_execScript h m).recover) fun outcome => ?_
  cases outcome with
  | ok =>
    refine stays_top fun s => stays_world fun w => stays_drop.bind fun _ => ?_
    exact (stays_pure _).bind fun _ => stays_world fun w => stays_pure _
  | error fault => exact (stays_pure _).bind fun _ => stays_world fun w => stays_pure _

/-- How things stand between two scripts. -/
structure Between (t : Limits) (m : Machine) : Prop where
  good : m.Good t []
  bare : m.world.Bare
  layered : m.world.Layered
  stack : m.world.stack = []
  aside : m.world.aside = []

theorem between_initial (config : Config) :
    Between ⟨0, False, [], True⟩ ⟨.initial config, []⟩ :=
  ⟨Machine.good_initial config False True, World.bare_initial config, World.layered_initial config,
    rfl, rfl⟩

theorem Between.leakFree (h : Between t m) (ht : ¬ t.second) : m.world.LeakFree t.home :=
  h.good.sound.home ▸
    World.leakFree_of_sound h.good.sound ht h.layered.heap h.aside h.stack

/-- The outcome is an end of the kind, unless a loop goes on for too long. -/
inductive Ends (P : Machine → Prop) : Outcome α → Prop
  | done (r : α) (m : Machine) (h : P m) : Ends P (.done r m)
  | stopped (halt : Halt) (hwhy : halt.why = .exhausted) (h : halt.machine.world.heap.Layered) :
      Ends P (.stopped halt)

/-- A script leaves things as it found them. -/
theorem runOne_ends (hs : on.call.Safe t) (ht : on.call.Tidy) (h : Script.setsMember code = false)
    (hm : Between t m) : Ends (Between t) (runOne on code m) := by
  have hgood := shifts_runOne hs code [] m hm.good (hm.stack ▸ over_refl [])
  have hstays : (runOne on code m).Stays ⟨on.scope, fun _ => True, False⟩ m.world :=
    stays_runOne h m hm.bare
  cases hrun : runOne on code m with
  | done report m' =>
    rw [hrun] at hgood hstays
    have hlow := atMost_runOne ht code m report m' hrun
    refine .done report m' ⟨hgood.1, hstays.bare hm.bare, hstays.layered id hm.layered, ?_,
      hstays.aside.trans hm.aside⟩
    rw [hm.stack] at hlow
    exact List.eq_nil_of_length_eq_zero (Nat.le_zero.mp hlow)
  | raised fault m' =>
    rw [hrun] at hgood
    exact hgood.1.elim
  | stopped halt =>
    rw [hrun] at hstays
    exact .stopped halt hstays.1 (hstays.2.layered id hm.layered).heap

/-- While a script is run, all references lead to older cells. -/
theorem Between.layered_of_reaches {program : Statements} {q : Site × Machine} (hm : Between t m)
    (h : program.setsMember = false) (hr : Site.Reaches on (.program program, m) q) :
    q.2.world.heap.Layered := by
  have hleads : m.world.Leads ⟨on.scope, fun _ => True, False⟩ q.2.world :=
    hr.leads_of hm.bare fun hset => Bool.false_ne_true (h.symm.trans hset)
  exact (hleads.layered id hm.layered).heap

/-! ## Many scripts -/

variable {P Q : Machine → Prop}

theorem Ends.mono {r : Outcome α} (h : Ends P r) (hpq : ∀ m, P m → Q m) : Ends Q r := by
  cases h with
  | done r m h => exact .done r m (hpq m h)
  | stopped halt hwhy h => exact .stopped halt hwhy h

theorem Ends.bind {x : Act α} {f : α → Act β} (hx : Ends P (x m))
    (hf : ∀ r m, P m → Ends Q (f r m)) : Ends Q ((x >>= f) m) := by
  cases hrun : x m with
  | done r m' =>
    rw [hrun] at hx
    cases hx with
    | done _ _ h =>
      rw [bind_done hrun]
      exact hf r m' h
  | raised fault m' =>
    rw [hrun] at hx
    cases hx
  | stopped halt =>
    rw [hrun] at hx
    cases hx with
    | stopped _ hwhy h =>
      rw [bind_stopped hrun]
      exact .stopped halt hwhy h

theorem mapM_ends {f : α → Act β} {items : List α}
    (hf : ∀ a ∈ items, ∀ m, P m → Ends P (f a m)) (hm : P m) : Ends P (items.mapM f m) := by
  -- The loop has what came of the items before as a list in reverse.
  have hloop : ∀ done : List β, ∀ m, P m → Ends P (List.mapM.loop f items done m) := by
    induction items with
    | nil => exact fun done m hm => .done done.reverse m hm
    | cons a rest ih =>
      intro done m hm
      refine Ends.bind (hf a (List.mem_cons_self ..) m hm) fun b m' hm' => ?_
      exact ih (fun a ha => hf a (List.mem_cons_of_mem _ ha)) (b :: done) m' hm'
  exact hloop [] m hm

/-- **Scripts that set no member leak nothing.** Scripts that have no plain assignment to a member,
though they may have compound assignments to members and updates of them, are run one after the other
without a host, and each comes to a value, which is dropped, or to a fault. However many there were,
references lead to older cells after them, the live cells are those that the globals lead to, and the
end of the scope leaves none. References lead to older cells wherever the evaluation of one more such
script gets to as well. Only a loop that goes on for too long stops a script in another way. -/
theorem scripts_leak_nothing (b : Budget) (config : Config) (codes : List String)
    (h : ∀ code ∈ codes, Script.setsMember code = false) :
    let on := b.surroundings 0
    let outcome := codes.mapM (runOne on) ⟨.initial config, []⟩
    Ends (fun m => m.world.LeakFree 0) outcome ∧
      ∀ reports m program q, outcome = .done reports m → program.setsMember = false →
        Site.Reaches on (.program program, m) q →
          q.2.world.heap.Layered ∧ ∀ id, ¬ q.2.world.heap.OnCycle id := by
  intro on outcome
  let t : Limits := ⟨0, False, [], True⟩
  have hs : on.call.Safe t := b.safe_surroundings t 0
  have ht : on.call.Tidy := tidy_callNative b.patience b.depth
  have hends : Ends (Between t) outcome :=
    mapM_ends (fun code hcode m hm => runOne_ends hs ht (h code hcode) hm) (between_initial config)
  refine ⟨hends.mono fun m hm => hm.leakFree not_false, fun reports m program q hdone hset hr => ?_⟩
  rw [hdone] at hends
  cases hends with
  | done _ _ hm =>
    have hlayered := hm.layered_of_reaches hset hr
    exact ⟨hlayered, hlayered.acyclic⟩

/-- Two globals share an object, which is updated in two ways; two other scripts fail. -/
theorem scripts_leak_nothing_of_shared :
    let codes := ["let o = \x7bn: 1\x7d; let l = [o, o]", "l[0].n += 2; o.n++", "x", "["]
    (∀ code ∈ codes, Script.setsMember code = false) ∧
      Ends (fun m => m.world.LeakFree 0)
        (codes.mapM (runOne (Budget.standard.surroundings 0)) ⟨.initial .default, []⟩) := by
  intro codes
  have h : ∀ code ∈ codes, Script.setsMember code = false := by decide +kernel
  exact ⟨h, (scripts_leak_nothing Budget.standard .default codes h).1⟩

end Trial
end Enclave
