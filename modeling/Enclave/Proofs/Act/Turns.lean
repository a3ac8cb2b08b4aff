import Enclave.Proofs.Act.Gains
import Enclave.Proofs.Script.Reaches
import Enclave.Proofs.Text.Bytes
import Enclave.Script.Member

/-! # Acts that succeed

An act turns one gain over a machine into another when it succeeds from every machine with the first
gain. The machine that gains are counted from stays fixed through a chain of acts, so all that they
leave alone need not be mentioned.
-/
namespace Enclave.Act

variable {α β : Type}

/-- From every machine that has gained `g` over `m₀` the act succeeds; its result and what has been
gained over `m₀` after it are as `Q` says. -/
def Turns (m₀ : Machine) (g : Gain) (x : Act α) (Q : α → Gain → Prop) : Prop :=
  ∀ m, m₀.Gains g m → ∃ a g' m', x m = .done a m' ∧ m₀.Gains g' m' ∧ Q a g'

variable {m₀ m : Machine} {g g' : Gain} {ss dropped : List Slot} {bs : List Nat}
  {es : List Event} {s : Slot} {x : Act α} {f : α → Act β} {Q : α → Gain → Prop}
  {R : β → Gain → Prop}

/-! ## Plain rules -/

theorem turns_pure (a : α) (h : Q a g) : Turns m₀ g (pure a) Q :=
  fun m hm => ⟨a, g, m, rfl, hm, h⟩

theorem Turns.bind (hx : Turns m₀ g x Q) (hf : ∀ a g', Q a g' → Turns m₀ g' (f a) R) :
    Turns m₀ g (x >>= f) R := by
  intro m hm
  obtain ⟨a, g₁, m₁, hrun, hm₁, hq⟩ := hx m hm
  obtain ⟨c, g₂, m₂, hrun', hm₂, hr⟩ := hf a g₁ hq m₁ hm₁
  exact ⟨c, g₂, m₂, (bind_done hrun).trans hrun', hm₂, hr⟩

/-- An act with one possible outcome, and what follows it. -/
theorem Turns.then {a : α} (hx : Turns m₀ g x fun c k => c = a ∧ k = g')
    (hf : Turns m₀ g' (f a) R) : Turns m₀ g (x >>= f) R :=
  hx.bind fun _ _ ⟨hc, hk⟩ => hc ▸ hk ▸ hf

theorem Turns.weaken {Q' : α → Gain → Prop} (hx : Turns m₀ g x Q)
    (hq : ∀ a g', Q a g' → Q' a g') : Turns m₀ g x Q' := by
  intro m hm
  obtain ⟨a, g₁, m₁, hrun, hm₁, h⟩ := hx m hm
  exact ⟨a, g₁, m₁, hrun, hm₁, hq a g₁ h⟩

theorem Turns.map {c : α → β} (hx : Turns m₀ g x Q) (hr : ∀ a g', Q a g' → R (c a) g') :
    Turns m₀ g (c <$> x) R :=
  hx.bind fun a g' hq => turns_pure (c a) (hr a g' hq)

/-- What an act does from the machine that gains are counted from. -/
theorem Turns.run (hx : Turns m .none x Q) :
    ∃ a g' m', x m = .done a m' ∧ m.Gains g' m' ∧ Q a g' :=
  hx m (Machine.Gains.refl m)

theorem turns_world {f : World → Act β} (hf : ∀ m, m₀.Gains g m → Turns m₀ g (f m.world) R) :
    Turns m₀ g (world >>= f) R :=
  fun m hm => hf m hm m hm

theorem turns_change {f : World → World}
    (hf : ∀ m, m₀.Gains g m → m₀.Gains g' { m with world := f m.world }) :
    Turns m₀ g (change f) fun _ k => k = g' :=
  fun m hm => ⟨(), g', { m with world := f m.world }, rfl, hf m hm, rfl⟩

/-- A change with one possible outcome, and what follows it. -/
theorem Turns.step {x : Act Unit} {f : Unit → Act β} (hx : Turns m₀ g x fun _ k => k = g')
    (hf : Turns m₀ g' (f ()) R) : Turns m₀ g (x >>= f) R :=
  hx.bind fun _ _ hk => hk ▸ hf

/-! ## The working stack -/

theorem turns_top {f : Slot → Act β} (hf : Turns m₀ ⟨s :: ss, bs, es⟩ (f s) R) :
    Turns m₀ ⟨s :: ss, bs, es⟩ (top >>= f) R := by
  intro m hm
  have htop : m.world.top = s := World.top_of_stack hm.stack
  rw [bind_done (top_eq m), htop]
  exact hf m hm

theorem turns_push (v : Scalar) :
    Turns m₀ ⟨ss, bs, es⟩ (push v) fun _ k => k = ⟨.scalar v :: ss, bs, es⟩ :=
  turns_change fun _ hm => hm.push v

theorem turns_shareFound (s : Slot) :
    Turns m₀ ⟨ss, bs, es⟩ (share s) fun _ k => k = ⟨m₀.world.found s :: ss, bs, es⟩ :=
  turns_change fun _ hm => hm.share s

theorem turns_share (hs : m₀.world.Alive s) :
    Turns m₀ ⟨ss, bs, es⟩ (share s) fun _ k => k = ⟨s :: ss, bs, es⟩ := by
  have hfound := World.found_of_alive hs
  intro m hm
  have hshare := hm.share s
  rw [hfound] at hshare
  exact ⟨(), _, _, rfl, hshare, rfl⟩

section Proper

variable (hp : m₀.world.heap.Proper)
include hp

theorem turns_drop : Turns m₀ ⟨s :: ss, bs, es⟩ drop fun _ k => k = ⟨ss, bs, es⟩ :=
  turns_change fun _ hm => hm.drop hp

theorem turns_settle (n : Nat) (hn : dropped.length = n) :
    Turns m₀ ⟨s :: (dropped ++ ss), bs, es⟩ (settle n) fun _ k => k = ⟨s :: ss, bs, es⟩ :=
  turns_change fun _ hm => hn ▸ hm.settle hp

/-- Of all that came after a height, the newest entry stays. -/
theorem turns_settleTo (n : Nat) (hn : n = ss.length + m₀.world.stack.length) :
    Turns m₀ ⟨s :: (dropped ++ ss), bs, es⟩ (settleTo n) fun _ k => k = ⟨s :: ss, bs, es⟩ := by
  apply turns_change
  intro m hm
  have hl : m.world.stack.length - 1 - n = dropped.length := by
    rw [hm.stack, hn]
    simp only [List.length_append, List.length_cons]
    omega
  rw [hl]
  exact hm.settle hp

end Proper

theorem turns_height {f : Nat → Act β}
    (hf : Turns m₀ ⟨ss, bs, es⟩ (f (ss.length + m₀.world.stack.length)) R) :
    Turns m₀ ⟨ss, bs, es⟩ (height >>= f) R := by
  intro m hm
  have hl : m.world.stack.length = ss.length + m₀.world.stack.length := by
    rw [hm.stack, List.length_append]
  rw [bind_done (height_eq m), hl]
  exact hf m hm

/-- Beneath what is brought to the top lies everything else that is above the base. -/
theorem turns_secure {xs : List Slot} (n : Nat) (hn : n = ss.length + m₀.world.stack.length) (hs : s ∈ xs) :
    Turns m₀ ⟨xs ++ ss, bs, es⟩ (change (·.secure n s)) fun _ k =>
      ∃ beneath, k = ⟨s :: (beneath ++ ss), bs, es⟩ := by
  intro m hm
  cases s with
  | scalar v => exact ⟨(), _, _, rfl, hm.push v, xs, rfl⟩
  | cell id =>
    have hstack : m.world.stack = [] ++ (xs ++ (ss ++ m₀.world.stack)) := by
      rw [hm.stack, List.append_assoc, List.nil_append]
    have hbase : n = (ss ++ m₀.world.stack).length := by rw [hn, List.length_append]
    obtain ⟨front, back, hxs, hw⟩ := World.secure_above hstack hbase hs
    have hsecure : m.world.secure n (.cell id) = _ := hw
    have hholders : ∀ x, holders (.cell id :: (front ++ back ++ ss)) x = holders (xs ++ ss) x := by
      intro x
      simp only [hxs, holders_cons, holders_append]
      omega
    have hgain := hm.restack hholders
    refine ⟨(), _, { m with world := m.world.secure n (.cell id) }, rfl, ?_, front ++ back, rfl⟩
    rw [hsecure]
    simpa only [List.cons_append, List.nil_append, List.append_assoc] using hgain

/-! ## Text blocks and events -/

theorem turns_allocText (s : String) :
    Turns m₀ ⟨ss, bs, es⟩ (allocText s) fun t k =>
      ∃ b, t = ⟨Text.untilZero (Text.encode s), some b⟩ ∧ k = ⟨ss, b :: bs, es⟩ :=
  fun m hm => ⟨_, _, _, rfl, hm.allocText, m.world.ledger.next, rfl, rfl⟩

theorem turns_freeText (b : Nat) :
    Turns m₀ ⟨ss, b :: bs, es⟩ (freeText (some b)) fun _ k => k = ⟨ss, bs, es⟩ :=
  fun _ hm => ⟨(), _, _, rfl, hm.freeText, rfl⟩

theorem turns_note (event : Event) :
    Turns m₀ ⟨ss, bs, es⟩ (note event) fun _ k => k = ⟨ss, bs, event :: es⟩ :=
  fun _ hm => ⟨(), _, _, rfl, hm.note event, rfl⟩

/-! ## Accesses and faults -/

theorem Turns.guarded {a : Guard} (hx : Turns (m₀.guard a) g x Q) :
    Turns m₀ g (guarded a x) Q := by
  intro m hm
  obtain ⟨r, g', m', hrun, hm', hq⟩ := hx _ (hm.guard a)
  have hrun' : x { m with world := m.world.guard a } = .done r m' := hrun
  refine ⟨r, g', { m' with world := m'.world.unguard a }, ?_, hm'.unguard, hq⟩
  rw [Act.guarded, hrun']

/-- A read of what can be seen. -/
theorem turns_reading {id : CellId} {p : Payload} {x : Payload → Act α} {refused : Act α}
    (hv : m₀.world.visible? id = some p)
    (hx : Turns (m₀.guard ⟨.payload id, false⟩) g (x p) Q) : Turns m₀ g (reading id x refused) Q := by
  have hread : m₀.world.canRead (.payload id) = true ∧ m₀.world.heap.payload? id = some p := by
    simpa [World.visible?] using hv
  apply turns_world
  intro m hm
  have hallows : m.world.allows ⟨.payload id, false⟩ = true := by
    simp [World.allows, hm.canRead, hread.1]
  rw [if_pos hallows]
  have hpayload : (m₀.guard ⟨.payload id, false⟩).world.heap.payload? id = some p := hread.2
  refine Turns.guarded (turns_world fun m' hm' => ?_)
  rw [hm'.heap.payload?, hpayload]
  exact hx

/-- A read of what cannot be seen. -/
theorem turns_refused {id : CellId} {x : Payload → Act α} {refused : Act α}
    (hv : m₀.world.visible? id = none)
    (hr : ∀ guards, Turns { m₀ with world := { m₀.world with guards := guards } } g refused Q) :
    Turns m₀ g (reading id x refused) Q := by
  apply turns_world
  intro m hm
  by_cases hread : m₀.world.canRead (.payload id) = true
  · have hnone : m₀.world.heap.payload? id = none := by
      simpa [World.visible?, hread] using hv
    have hallows : m.world.allows ⟨.payload id, false⟩ = true := by
      simp [World.allows, hm.canRead, hread]
    rw [if_pos hallows]
    have hpayload : (m₀.guard ⟨.payload id, false⟩).world.heap.payload? id = none := hnone
    refine Turns.guarded (turns_world fun m' hm' => ?_)
    rw [hm'.heap.payload?, hpayload]
    exact hr _
  · have hallows : ¬ m.world.allows ⟨.payload id, false⟩ = true := by
      simp [World.allows, hm.canRead, hread]
    rw [if_neg hallows]
    exact hr m₀.world.guards

theorem Turns.attempt (hx : Turns m₀ g x Q) :
    Turns m₀ g (attempt x) fun r k => ∃ a, r = .ok a ∧ Q a k := by
  intro m hm
  obtain ⟨a, g', m', hrun, hm', hq⟩ := hx m hm
  refine ⟨.ok a, g', m', ?_, hm', a, rfl, hq⟩
  rw [Act.attempt, hrun]

theorem Turns.recover (hx : Turns m₀ ⟨ss, bs, es⟩ x Q) :
    Turns m₀ ⟨ss, bs, es⟩ (recover x) fun r k => ∃ a, r = .ok a ∧ Q a k := by
  refine turns_height (hx.attempt.bind fun r k hr => ?_)
  obtain ⟨a, rfl, hq⟩ := hr
  exact turns_pure _ ⟨a, rfl, hq⟩

end Enclave.Act
