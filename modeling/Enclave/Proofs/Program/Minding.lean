import Enclave.Proofs.Program.Counters
import Enclave.Proofs.Script.Reaches

/-! # Scripts that mind the counters

A script minds the counters when, wherever its evaluation gets to, nothing is done to a counter but to read
its number and to count it up, and nothing to the class but to make counters of it. Counters may be passed
on and stored like other values. Calls and members in such a script leave the machine in order.
-/
namespace Enclave

open Act Program

/-! ## Scripts -/

namespace Site

variable {on : Surroundings} {s s' : Site} {m m' : Machine}

/-- At the site nothing is done to a counter but to read its number and to count it up, and nothing to the
class but to make counters of it, with no more arguments than are allowed. -/
def Spares (on : Surroundings) : Site → Machine → Prop
  | expr (.member e k), m => ∀ id m₁ m₂, e.eval on m = .done () m₁ → k.eval on m₁ = .done () m₂ →
      m₁.world.top = .cell id → m₂.world.IsCounter id → m₂.world.top = .scalar (.string countKey)
  | expr (.call (.member e k) items), m => ∀ id m₁ m₂ m₃, items.evalArgs on m = .done () m₁ →
      e.eval on m₁ = .done () m₂ → k.eval on m₂ = .done () m₃ → m₂.world.top = .cell id →
      m₃.world.IsCounter id → m₃.world.top = .scalar (.string methodName) ∧ items = .nil
  | expr (.construct e items), m => ∀ m₁, e.eval on m = .done () m₁ →
      m₁.world.top = .cell classCell → items.length ≤ Config.default.maxArguments
  | expr (.update _ _ e), m => ∀ p m₁, e.evalPlace on m = .done p m₁ → p.Spared m₁
  | assignment p _, m => p.Spared m
  | declarators (.name x _ _), _ => x ≠ className
  | _, _ => True

/-- Wherever evaluation gets to from the site, nothing else is done. -/
def Minds (on : Surroundings) (s : Site) (m : Machine) : Prop :=
  ∀ s' m', Reaches on (s, m) (s', m') → s'.Spares on m'

theorem Minds.spares (h : s.Minds on m) : s.Spares on m :=
  h s m .refl

theorem Minds.reaches (h : s.Minds on m) (hreaches : Reaches on (s, m) (s', m')) : s'.Minds on m' :=
  fun s'' m'' hrest => h s'' m'' (hreaches.trans hrest)

theorem Minds.comes (h : s.Minds on m) (hcomes : Comes on (s, m) (s', m')) : s'.Minds on m' :=
  h.reaches (.single hcomes)

end Site

namespace Act

variable {α β : Type} {t : Limits} {m m' : Machine} {x : Act α} {f : α → Act β} {b : α → Nat}
  {Q : α → Machine → Prop} {R : β → Machine → Prop} {s callee : Slot} {receiver : Option Slot}
  {slots xs rest : List Slot} {id : CellId} {patience depth : Nat}

/-- What an act that has a specification leaves is good, and on the stack is what it says. -/
theorem Minds.afterSpec {P : List Slot → Prop} {P' : α → List Slot → Prop} (hx : Minds x m Q)
    (hs : Spec t True [] P x P') (hg : m.Good t []) (hp : P m.world.stack)
    (hf : ∀ r m₁, x m = .done r m₁ → m₁.Counts → m₁.Good t [] → P' r m₁.world.stack → Q r m₁ →
      Minds (f r) m₁ R) : Minds (x >>= f) m R := by
  apply hx.bind
  intro r m₁ hrun h₁ hq
  obtain ⟨hg₁, hp'⟩ := hs.after hg hp hrun
  exact hf r m₁ hrun h₁ hg₁ hp' hq

/-- After an act that only adds to the stack the machine is still good. -/
theorem Minds.after (hx : Minds x m Q) (hs : Shifts t True 0 x b) (hg : m.Good t [])
    (hf : ∀ r m₁, x m = .done r m₁ → m₁.Counts → m₁.Good t [] → Q r m₁ → Minds (f r) m₁ R) :
    Minds (x >>= f) m R :=
  hx.afterSpec (hs []) hg (over_zero.mpr hg.keeps) fun r m₁ hrun h₁ hg₁ _ => hf r m₁ hrun h₁ hg₁

theorem minds_done {r : α} (hrun : x m = .done r m') (h' : m'.Counts) (hq : Q r m') : Minds x m Q := by
  intro r' m₁ hrun'
  cases hrun.symm.trans hrun'
  exact ⟨h', hq⟩

/-! ## Members and calls -/

theorem minds_nativeOf (h : m.Counts) (s : Slot) : Minds (nativeOf s) m fun _ m' => m = m' := by
  intro found m' hrun
  obtain rfl := nativeOf_same hrun
  exact ⟨h, rfl⟩

/-- Whatever scripts call with whatever, the answer is a scalar. -/
theorem minds_callSlot (h : m.Counts) (hp : m.world.heap.Proper) (hcallee : callee.Public)
    (halive : ∀ s ∈ slots ++ receiver.toList, m.world.Alive s) :
    Minds (callSlot (runs patience depth).call callee receiver slots) m fun _ m' =>
      m'.Tops m.world.stack := by
  intro _ m' hrun
  obtain ⟨found, m₁, hnative, hrest⟩ := bind_done_iff.mp hrun
  obtain rfl := nativeOf_same hnative
  cases found with
  | none => cases hrest
  | some f =>
    cases callee with
    | scalar v => cases hnative
    | cell id =>
      have hfunction := nativeOf_held hnative
      obtain rfl : f = .closure (some 0) := by
        rcases h.hand_cases hcallee hfunction with hclass | ⟨hcounter, -⟩ | ⟨-, hplain, -⟩
        · cases hclass
        · cases hcounter
        · exact hplain
      obtain ⟨v, es, m₂, hcall, hgains, hpasses⟩ :=
        h.callSlot_adds hp patience depth hfunction halive
      cases hcall.symm.trans hrun
      have hcalls : ∀ x, m₁.SameCalls m' x := by
        intro x
        constructor
        · rw [hgains.calls, hpasses _ _ (by decide), List.nil_append]
        · rw [hgains.calls, hpasses _ _ (by decide), List.nil_append]
      exact ⟨h.keeps hgains.beside hcalls (World.keeps_of_gains hgains), .scalar v, hgains.stack,
        Slot.public_scalar v⟩

/-- There is but one class. -/
theorem minds_construct (h : m.Counts) (hp : m.world.heap.Proper) (hs : s ≠ .cell classCell)
    (call : Caller) {Q : Unit → Machine → Prop} : Minds (construct call s slots) m Q := by
  apply minds_world
  cases s with
  | scalar v => exact minds_raise _
  | cell id =>
    have hkind : m.world.kindOf (.cell id) ≠ .classDesc := by
      rw [World.kindOf, hp.kind?]
      cases hpayload : m.world.heap.payload? id with
      | none => decide
      | some p =>
        cases h.cells id p hpayload with
        | counters => exact absurd rfl hs
        | maker | counter | reading => exact fun hkind => by cases hkind
        | plain hid hplain hslots =>
          cases p with
          | classDesc name methods => exact hplain.elim
          | array | object | function | task => exact fun hkind => by cases hkind
    dsimp only
    rw [if_neg hkind]
    exact minds_raise _

end Act

/-- Over the lower part `rest` of the stack stand `n` entries, which scripts may have. -/
def Machine.Spreads (n : Nat) (rest : List Slot) (m : Machine) : Prop :=
  ∃ xs, m.world.stack = xs ++ rest ∧ xs.length = n ∧ ∀ s ∈ xs, s.Public

namespace Act

section Compound

variable {t : Limits} {m : Machine} {callee : Expr} {key : MemberKey} {args : Items}
  {patience depth : Nat} (hg : m.Good t [])
include hg

/-- What is on the stack is alive. -/
theorem alive_of_good {slots : List Slot} (hslots : ∀ s ∈ slots, s ∈ m.world.stack) :
    ∀ s ∈ slots, m.world.Alive s := by
  rintro s hs id rfl
  exact World.isLive_of_stack hg.sound.counted (hslots _ hs)

/-- A method of what is no counter is called like anything else. -/
theorem minds_callOther {xs rest : List Slot} {receiver k : Slot} (h : m.Counts)
    (hs : m.world.stack = k :: receiver :: (xs ++ rest)) (hreceiver : receiver.Public)
    (hother : ∀ id, receiver = .cell id → ¬ m.world.IsCounter id) :
    Minds (callMember (runs patience depth) xs.length xs.reverse) m fun _ m' => m'.Tops rest := by
  have hpeek : m.world.stack.getD 1 .null = receiver := by
    rw [hs]
    rfl
  apply minds_peek
  rw [hpeek]
  apply minds_top
  apply (minds_getMember h hreceiver fun id hid hcounter => absurd hcounter (hother id hid)).after
    (shifts_getMember _ _) hg
  rintro _ m₁ - h₁ hg₁ hhands
  obtain ⟨method, hs₁, hmethod⟩ := hhands.tops
  rw [hs] at hs₁
  apply minds_top
  rw [World.top_of_stack hs₁]
  apply (minds_nativeOf h₁ method).bind
  rintro found _ - - rfl
  cases found with
  | none => exact minds_world (minds_raise _)
  | some f =>
    have halive : ∀ s ∈ xs.reverse ++ (some receiver).toList, m₁.world.Alive s := by
      refine alive_of_good hg₁ fun s hs => ?_
      rw [hs₁]
      simp only [List.mem_append, List.mem_reverse, Option.toList_some, List.mem_singleton] at hs
      rcases hs with hs | rfl
      · simp [hs]
      · simp
    apply (minds_callSlot h₁ hg₁.sound.counted.proper hmethod halive).bind
    rintro _ m₂ - h₂ ⟨answer, hs₂, hanswer⟩
    rw [hs₁] at hs₂
    exact minds_settle h₂ (method :: k :: receiver :: xs) hs₂ rfl hanswer

/-- So is one of anything, if nothing but `inc` is called on counters. -/
theorem minds_callMember {xs rest : List Slot} {receiver k : Slot} (h : m.Counts)
    (hs : m.world.stack = k :: receiver :: (xs ++ rest)) (hreceiver : receiver.Public)
    (hinc : ∀ id, receiver = .cell id → m.world.IsCounter id →
      k = .scalar (.string methodName) ∧ xs = []) :
    Minds (callMember (runs patience depth) xs.length xs.reverse) m fun _ m' => m'.Tops rest := by
  by_cases hcounter : ∃ id, receiver = .cell id ∧ m.world.IsCounter id
  · obtain ⟨id, rfl, hcounter⟩ := hcounter
    obtain ⟨rfl, rfl⟩ := hinc id rfl hcounter
    obtain ⟨m', hrun, hupdates, hs'⟩ := h.callMember_inc hg patience depth hs hcounter
    exact minds_done hrun hupdates.counts ⟨_, hs', Slot.public_scalar _⟩
  · exact minds_callOther hg h hs hreceiver fun id hid hcell => hcounter ⟨id, hid, hcell⟩

/-- A call of what an expression evaluates to. -/
theorem minds_plainCall (hplain : ∀ target key, callee ≠ .member target key)
    (hargs : Minds (args.evalArgs (runs patience depth)) m fun _ m' =>
      m'.Spreads args.length m.world.stack)
    (hcallee : ∀ m₁ : Machine, args.evalArgs (runs patience depth) m = .done () m₁ → m₁.Counts →
      m₁.Good t [] → Minds (callee.eval (runs patience depth)) m₁ fun _ m' => m'.Tops m₁.world.stack) :
    Minds ((Expr.call callee args).eval (runs patience depth)) m fun _ m' =>
      m'.Tops m.world.stack := by
  have hc := safe_runs t patience depth
  rw [Expr.eval]
  · apply hargs.after (args.shifts_evalArgs hc) hg
    rintro _ m₁ hrun h₁ hg₁ ⟨xs, hs₁, hn, -⟩
    apply minds_newest
    apply (hcallee m₁ hrun h₁ hg₁).after (callee.shifts_eval hc) hg₁
    rintro _ m₂ - h₂ hg₂ ⟨f, hs₂, hf⟩
    rw [hs₁] at hs₂
    apply minds_top
    rw [World.top_of_stack hs₂]
    have hgiven : m₁.world.newest args.length = xs.reverse := by
      rw [World.newest, hs₁, ← hn, List.take_left]
    have halive : ∀ s ∈ m₁.world.newest args.length ++ (none : Option Slot).toList,
        m₂.world.Alive s := by
      refine alive_of_good hg₂ fun s hs => ?_
      rw [hgiven] at hs
      rw [hs₂]
      simp only [List.mem_append, List.mem_reverse, Option.toList_none, List.not_mem_nil, or_false] at hs
      simp [hs]
    apply (minds_callSlot h₂ hg₂.sound.counted.proper hf halive).bind
    rintro _ m₃ - h₃ ⟨answer, hs₃, hanswer⟩
    rw [hs₂] at hs₃
    exact minds_settle h₃ (f :: xs) hs₃ (congrArg (· + 1) hn) hanswer
  · exact hplain

end Compound

end Act
end Enclave
