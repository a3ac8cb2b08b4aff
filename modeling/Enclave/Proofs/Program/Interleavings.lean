import Enclave.Proofs.Program.Installed
import Enclave.Proofs.Program.Modest
import Enclave.Proofs.Program.Sites

/-! # Counters that are counted up in turns

A script that minds the counters may make any number of them and count them up in any order. Each answers
with the number that it started from and one added for every time, in the arithmetic of doubles, and shows
that number afterwards. What the others show stays as it was.
-/
namespace Enclave

open Act Program

variable {t : Limits} {patience depth : Nat} {m m₁ m' : Machine} {s : Site} {id : CellId}
  {rest : List Slot} {n : Float} {count : Nat}

namespace Machine

/-- A counter that is asked for its number answers with it. -/
theorem Counts.readMember_count (h : m.Counts)
    (hs : m.world.stack = .scalar (.string countKey) :: .cell id :: rest)
    (hcounter : m.world.IsCounter id) : ∃ m', readMember m = .done () m' ∧
      m'.world.stack = .scalar (.number (m.reading id)) :: rest := by
  obtain ⟨-, hp⟩ := h.isCounter_iff.mp hcounter
  have hpeek : m.world.stack.getD 1 .null = .cell id := by
    rw [hs]
    rfl
  have hget : getMember (.cell id) m.world.top m =
      .done () { m with world := m.world.push (.number (m.reading id)) } := by
    rw [World.top_of_stack hs, getMember_eq ((h.visible? id).trans hp), counter_member]
    rfl
  have hstack : (m.world.push (.number (m.reading id))).stack =
      .scalar (.number (m.reading id)) :: ([.scalar (.string countKey), .cell id] ++ rest) :=
    congrArg _ hs
  refine ⟨{ m with world := (m.world.push (.number (m.reading id))).settle 2 }, ?_,
    World.stack_settle hstack⟩
  have hread : readMember m = (getMember (.cell id) m.world.top >>= fun _ => settle 2) m := by
    rw [← hpeek]
    rfl
  exact hread.trans (bind_done hget)

/-- Every cell that a global of `m'` holds has what it had at `m`, but for one that is a counter and shows
its number. -/
def TouchesOnly (m : Machine) (id : CellId) (m' : Machine) : Prop :=
  ∀ name x, m'.world.global? 0 name = some (.cell x) →
    m'.world.heap.payload? x = if x = id then some (counter (m'.reading id)) else m.world.heap.payload? x

theorem Updates.held (h : m.Updates id count n m') (hg : m'.Good t []) : m.TouchesOnly id m' := by
  intro name x hx
  obtain ⟨p, hp⟩ := Heap.exists_payload? (World.isLive_of_global hg.sound.counted hx)
  have hpayload := h.payload x p hp
  rw [hp]
  split
  · rw [if_pos ‹_›] at hpayload
    rw [hpayload]
  · rw [if_neg ‹_›] at hpayload
    exact hpayload.symm

end Machine

namespace Site

variable {on : Surroundings}

/-- At the site `inc` is called on a counter. At `m₁` both have come to hand. -/
def CountsUp (on : Surroundings) (s : Site) (m : Machine) (id : CellId) (m₁ : Machine) : Prop :=
  ∃ e k m₀, s = expr (.call (.member e k) .nil) ∧ e.eval on m = .done () m₀ ∧
    m₀.world.top = .cell id ∧ k.eval on m₀ = .done () m₁ ∧
    m₁.world.top = .scalar (.string methodName) ∧ m₁.world.IsCounter id

/-- At the site a counter is asked for `x`. At `m₁` both have come to hand. -/
def Asks (on : Surroundings) (s : Site) (m : Machine) (id : CellId) (m₁ : Machine) : Prop :=
  ∃ e k m₀, s = expr (.member e k) ∧ e.eval on m = .done () m₀ ∧ m₀.world.top = .cell id ∧
    k.eval on m₀ = .done () m₁ ∧ m₁.world.top = .scalar (.string countKey) ∧ m₁.world.IsCounter id

/-- At the site a counter is made, of arguments that have come to hand at `m₁`. -/
def Makes (on : Surroundings) (s : Site) (m : Machine) (given : List Slot) (m₁ : Machine) : Prop :=
  ∃ e items m₀, s = expr (.construct e items) ∧ e.eval on m = .done () m₀ ∧
    m₀.world.top = .cell classCell ∧ items.evalArgs on m₀ = .done () m₁ ∧
    given = m₁.world.newest items.length

/-- All that can be done with counters at a site is exact, and touches one counter only. -/
structure Exact (on : Surroundings) (s : Site) (m : Machine) : Prop where
  named : m.world.global? 0 className = some (.cell classCell)
  shows : ∀ id, m.world.IsCounter id → m.world.heap.payload? id = some (counter (m.reading id))
  counts : ∀ id m₁, s.CountsUp on m id m₁ → ∃ m', s.act on m = .done () m' ∧
    m'.world.stack =
      .scalar (.number ((· + 1.0)^[m₁.counted id + 1] (m₁.start id))) :: m.world.stack ∧
    m₁.Updates id (m₁.counted id + 1) (m₁.start id) m' ∧ m₁.TouchesOnly id m'
  asks : ∀ id m₁, s.Asks on m id m₁ → ∃ m', s.act on m = .done () m' ∧
    m'.world.stack = .scalar (.number ((· + 1.0)^[m₁.counted id] (m₁.start id))) :: m.world.stack
  makes : ∀ given m₁, s.Makes on m given m₁ → ∃ m', s.act on m = .done () m' ∧
    m'.world.stack = .cell m₁.world.heap.next :: m.world.stack ∧
    m₁.Updates m₁.world.heap.next 0 (startOf given.head?) m' ∧ m₁.TouchesOnly m₁.world.heap.next m'

namespace Orderly

/-- What the work at a site leaves, if it is to evaluate an expression. -/
theorem good_after {e : Expr} (ho : (expr e).Orderly (runs patience depth) t m)
    (hrun : e.eval (runs patience depth) m = .done () m') : m'.Good t [] :=
  (Expr.leaves ho.counts ho.good ho.minds hrun).2.1

/-- A counter and a key come to hand one after the other. -/
theorem hand_over {e : Expr} {k : MemberKey} {m₀ : Machine} {name : String} (h : m.Counts)
    (hg : m.Good t []) (he : (expr e).Minds (runs patience depth) m)
    (hk : (key k).Minds (runs patience depth) m₀)
    (htarget : e.eval (runs patience depth) m = .done () m₀) (hcell : m₀.world.top = .cell id)
    (hkey : k.eval (runs patience depth) m₀ = .done () m₁)
    (hname : m₁.world.top = .scalar (.string name)) :
    m₁.Counts ∧ m₁.Good t [] ∧
      m₁.world.stack = .scalar (.string name) :: .cell id :: m.world.stack := by
  obtain ⟨h₀, hg₀, htops₀⟩ := Expr.leaves h hg he htarget
  obtain ⟨h₁, hg₁, htops₁⟩ := MemberKey.leaves h₀ hg₀ hk hkey
  refine ⟨h₁, hg₁, ?_⟩
  rw [htops₁.stack, htops₀.stack, hcell, hname]

theorem counts_exact (ho : s.Orderly (runs patience depth) t m)
    (hs : s.CountsUp (runs patience depth) m id m₁) :
    ∃ m', s.act (runs patience depth) m = .done () m' ∧
      m'.world.stack =
        .scalar (.number ((· + 1.0)^[m₁.counted id + 1] (m₁.start id))) :: m.world.stack ∧
      m₁.Updates id (m₁.counted id + 1) (m₁.start id) m' ∧ m₁.TouchesOnly id m' := by
  obtain ⟨e, k, m₀, rfl, htarget, hcell, hkey, hname, hcounter⟩ := hs
  have hnil : Items.nil.evalArgs (runs patience depth) m = .done () m := by
    rw [Items.evalArgs]
    rfl
  obtain ⟨h₁, hg₁, hs₁⟩ := hand_over ho.counts ho.good
    (ho.minds.comes (.methodTarget e k .nil hnil)) (ho.minds.comes (.methodKey e k .nil hnil htarget))
    htarget hcell hkey hname
  obtain ⟨m', hcall, hupdates, hs'⟩ := h₁.callMember_inc hg₁ patience depth hs₁ hcounter
  have heval : (Expr.call (.member e k) .nil).eval (runs patience depth) m = .done () m' := by
    rw [Expr.eval_callMember, bind_done hnil, bind_done (newest_eq _ _), bind_done htarget,
      bind_done hkey]
    exact hcall
  refine ⟨m', heval, ?_, hupdates, hupdates.held (ho.good_after heval)⟩
  rw [hs', hupdates.reading]

theorem asks_exact (ho : s.Orderly (runs patience depth) t m)
    (hs : s.Asks (runs patience depth) m id m₁) :
    ∃ m', s.act (runs patience depth) m = .done () m' ∧ m'.world.stack =
      .scalar (.number ((· + 1.0)^[m₁.counted id] (m₁.start id))) :: m.world.stack := by
  obtain ⟨e, k, m₀, rfl, htarget, hcell, hkey, hname, hcounter⟩ := hs
  obtain ⟨h₁, -, hs₁⟩ := hand_over ho.counts ho.good (ho.minds.comes (.memberTarget e k m))
    (ho.minds.comes (.memberKey e k htarget)) htarget hcell hkey hname
  obtain ⟨m', hread, hs'⟩ := h₁.readMember_count hs₁ hcounter
  refine ⟨m', ?_, hs'⟩
  rw [Site.act, eval_member, bind_done htarget, bind_done hkey]
  exact hread

theorem makes_exact {given : List Slot} (ho : s.Orderly (runs patience depth) t m)
    (hs : s.Makes (runs patience depth) m given m₁) : ∃ m', s.act (runs patience depth) m = .done () m' ∧
      m'.world.stack = .cell m₁.world.heap.next :: m.world.stack ∧
      m₁.Updates m₁.world.heap.next 0 (startOf given.head?) m' ∧
      m₁.TouchesOnly m₁.world.heap.next m' := by
  obtain ⟨e, items, m₀, rfl, hclass, hcell, hargs, rfl⟩ := hs
  have hfew : items.length ≤ Config.default.maxArguments := ho.minds.spares m₀ hclass hcell
  obtain ⟨h₀, hg₀, htops⟩ := Expr.leaves ho.counts ho.good
    (ho.minds.comes (.constructCallee e items m)) hclass
  obtain ⟨h₁, hg₁, xs, hs₁, hn, -⟩ := Items.leaves h₀ hg₀
    (ho.minds.comes (.constructArgs e items hclass)) hargs
  rw [htops.stack, hcell] at hs₁
  obtain ⟨m', hmake, hupdates, hs'⟩ := h₁.construct_makes hg₁ patience depth hs₁ (hn ▸ hfew)
  rw [hn] at hmake hupdates
  have heval : (Expr.construct e items).eval (runs patience depth) m = .done () m' :=
    (eval_construct hclass hcell hargs).trans hmake
  exact ⟨m', heval, hs', hupdates, hupdates.held (ho.good_after heval)⟩

/-- In order all is exact. -/
theorem exact (ho : s.Orderly (runs patience depth) t m) : s.Exact (runs patience depth) m where
  named := ho.counts.bound
  shows _ hcounter := (ho.counts.isCounter_iff.mp hcounter).2
  counts _ _ := ho.counts_exact
  asks _ _ := ho.asks_exact
  makes _ _ := ho.makes_exact

end Orderly

/-- The counter that `inc` is called on may be that of a global. -/
theorem countsUp_global {x : String} {k : MemberKey} (h : m.Idle)
    (hx : m.world.global? 0 x = some (.cell id)) (hk : k.spells methodName = true)
    (hcounter : m.world.IsCounter id) : (expr (.call (.member (.name x) k) .nil)).CountsUp
      (runs patience depth) m id
      { m with world := (m.world.share (.cell id)).push (.string methodName) } := by
  obtain ⟨p, hp, hcounter⟩ := hcounter
  have halive : m.world.Alive (.cell id) := by
    rintro _ ⟨⟩
    exact Heap.isLive_of_payload? hp
  have hload := loadGlobal_eq (h.canRead (.scope 0)) x
  rw [hx] at hload
  refine ⟨.name x, k, { m with world := m.world.share (.cell id) }, rfl, ?_, ?_, ?_, rfl, p, ?_,
    hcounter⟩
  · rw [Expr.eval]
    exact hload
  · rw [World.share_eq, World.found_of_alive halive]
    rfl
  · rw [MemberKey.eval_spells hk]
    rfl
  · rw [World.share_eq]
    exact (Heap.payload?_retainSlot _ _ _).trans hp

end Site

namespace Program

theorem runSource_ready (source : String) : runSource source ⟨.initial .default, []⟩ =
    engineRun (runs Budget.standard.patience 9999) source ready := by
  have hscope : (runs Budget.standard.patience 9999).scope = 0 := rfl
  exact (bind_done (install_ready hscope).1).trans rfl

/-- Scripts start where all has been installed. In one that minds the counters all that is done with
counters is exact, wherever evaluation gets to. -/
theorem counters_exact (program : Statements) (patience depth : Nat) :
    ∃ ready, install (runs patience depth) 0 ⟨.initial .default, []⟩ = .done (.ok ()) ready ∧
      (∀ source, runSource source ⟨.initial .default, []⟩ =
        engineRun (runs Budget.standard.patience 9999) source ready) ∧
      ((Site.program program).Minds (runs patience depth) ready → ∀ s m,
        Site.Reaches (runs patience depth) (.program program, ready) (s, m) →
          s.Exact (runs patience depth) m) := by
  have hscope : (runs patience depth).scope = 0 := rfl
  obtain ⟨hinstall, hg⟩ := install_ready hscope
  refine ⟨ready, hinstall, runSource_ready, fun hminds s m hreaches => ?_⟩
  have ho : (Site.program program).Orderly (runs patience depth) ⟨0, False, [], True⟩ ready :=
    ⟨hminds, ready_counts, hg, trivial⟩
  exact (hreaches.orderly ho).exact

/-- A script that makes a counter and counts it up, `let c = new Counter(true); c.inc()`. -/
def countingOnce : Statements :=
  .cons (.declare (.name "c" (some (.construct (.name className) (.item (.bool true) .nil))) .nil))
    (.cons (.expression (.call (.member (.name "c") (.name methodName)) .nil)) .nil)

theorem counters_exact_once : ∃ ready m m',
    Site.Reaches (runs 0 0) (.program countingOnce, ready)
        (.expr (.call (.member (.name "c") (.name methodName)) .nil), m) ∧
      (Expr.call (.member (.name "c") (.name methodName)) .nil).eval (runs 0 0) m = .done () m' ∧
      m'.world.top = .scalar (.number (1.0 + 1.0)) := by
  obtain ⟨ready', hinstall, -, hexact⟩ := counters_exact countingOnce 0 0
  obtain ⟨hready, hg⟩ := install_ready (rfl : (runs 0 0).scope = 0)
  obtain rfl : ready = ready' := by
    cases hready.symm.trans hinstall
    rfl
  have hminds : (Site.program countingOnce).Minds (runs 0 0) ready :=
    Site.minds_of_modest (by decide) ready
  replace hexact := hexact hminds
  have ho : (Site.program countingOnce).Orderly (runs 0 0) ⟨0, False, [], True⟩ ready :=
    ⟨hminds, ready_counts, hg, trivial⟩
  -- The counter is made.
  let m₁ : Machine := { ready with world := ready.world.push .null }
  have hreaches₁ : Site.Reaches (runs 0 0) (.program countingOnce, ready)
      (.statements countingOnce, m₁) := .single (.start _ rfl)
  have hmaking : Site.Reaches (runs 0 0) (.program countingOnce, ready)
      (.expr (.construct (.name className) (.item (.bool true) .nil)), m₁) :=
    ((hreaches₁.tail (.first _ _ _)).tail (.declaration _ _)).tail (.initial _ _ _ _)
  let m₂ : Machine := { m₁ with world := m₁.world.share (.cell classCell) }
  have hcallee : (Expr.name className).eval (runs 0 0) m₁ = .done () m₂ := by
    have hload := loadGlobal_eq (rfl : m₁.world.canRead (.scope 0) = true) className
    rw [(hexact _ _ hmaking).named] at hload
    rw [Expr.eval]
    exact hload
  let m₃ : Machine := { m₂ with world := m₂.world.push (.bool true) }
  have hargs : (Items.item (.bool true) .nil).evalArgs (runs 0 0) m₂ = .done () m₃ := by
    rw [Items.evalArgs, Expr.eval, Items.evalArgs]
    rfl
  obtain ⟨m₄, hmake, hs₄, hupdates, -⟩ := (hexact _ _ hmaking).makes _ m₃
    ⟨_, _, m₂, rfl, hcallee, rfl, hargs, rfl⟩
  -- It goes into the global.
  obtain ⟨globals, hglobals, -⟩ := Option.bind_eq_some_iff.mp hupdates.counts.bound
  have hdeclare := declare_eq 0 "c" m₄
  rw [if_pos (hupdates.counts.canWrite _), World.drop_exchangeGlobal "c" hs₄ hglobals] at hdeclare
  let id := m₃.world.heap.next
  let m₅ : Machine := { m₄ with world :=
    { m₄.world.setScope 0 (some (globals.put "c" (.cell id))) with
      heap := m₄.world.heap.releaseSlots [(globals.get? "c").getD .null], stack := m₁.world.stack } }
  have hexec : (Declarators.name "c" (some (.construct (.name className) (.item (.bool true) .nil)))
      .nil).exec (runs 0 0) m₁ = .done () m₅ := by
    rw [Declarators.exec, Declarators.exec]
    exact (bind_done hmake).trans ((bind_done hdeclare).trans rfl)
  have hcounting : Site.Reaches (runs 0 0) (.program countingOnce, ready)
      (.expr (.call (.member (.name "c") (.name methodName)) .nil), m₅) := by
    refine ((hreaches₁.tail (.next _ _ ?_)).tail (.first _ _ _)).tail (.expression _ _)
    rw [Statement.exec]
    exact hexec
  have ho₅ : Site.Orderly (runs 0 0) ⟨0, False, [], True⟩
      (.expr (.call (.member (.name "c") (.name methodName)) .nil)) m₅ := hcounting.orderly ho
  -- There it is counted up.
  have hglobal : m₅.world.global? 0 "c" = some (.cell id) := World.global?_put hglobals "c" _
  obtain ⟨p, hp⟩ := Heap.exists_payload? (World.isLive_of_global ho₅.good.sound.counted hglobal)
  have hcounter := hupdates.payload id p (Heap.payload?_of_releaseAll hp)
  rw [if_pos rfl] at hcounter
  obtain ⟨m₆, hcount, hs₆, -⟩ := (hexact _ _ hcounting).counts id _ <|
    Site.countsUp_global ho₅.counts.toIdle hglobal rfl ⟨p, hp, hcounter ▸ rfl⟩
  refine ⟨ready, m₅, m₆, hcounting, hcount, ?_⟩
  rw [World.top_of_stack hs₆]
  have hcounted : m₅.counted id = 0 := hupdates.counted
  have hstart : m₅.start id = 1.0 := hupdates.start
  change Slot.scalar (.number ((· + 1.0)^[m₅.counted id + 1] (m₅.start id))) = _
  rw [hcounted, hstart]
  rfl

end Program
end Enclave
