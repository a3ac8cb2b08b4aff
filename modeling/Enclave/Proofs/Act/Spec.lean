import Enclave.Proofs.Act.Trace
import Enclave.Script.Run

/-! # Specifications of acts

A specification says from which stacks an act may start, which lower part of the stack it leaves
alone, and on which stacks it ends. Beside that every act that has one keeps the machine in good
order and ends with the calls in progress that it began with. Most acts only need so many entries at
the top and leave so many; they are said to shift the stack.
-/
namespace Enclave.Act

variable {α β : Type} {t : Limits} {may : Prop} {keep o : List Slot} {n a k : Nat}
  {P P' : List Slot → Prop}

/-- What an act keeps to. Only if it `may`, it ends with a fault; then nothing is known of what it
left above the part that it keeps. -/
def Spec (t : Limits) (may : Prop) (keep : List Slot) (P : List Slot → Prop) (x : Act α)
    (Q : α → List Slot → Prop) : Prop :=
  ∀ m : Machine, m.Good t keep → P m.world.stack →
    match x m with
    | .done a m' =>
      m'.Good t keep ∧ openCalls m'.moments = openCalls m.moments ∧ Q a m'.world.stack
    | .raised _ m' => may ∧ m'.Good t keep ∧ openCalls m'.moments = openCalls m.moments
    | .stopped halt => Recorded t.lossless halt.machine.moments

/-- The act needs `n` entries above any lower part, and leaves as many as `b` says. -/
def Shifts (t : Limits) (may : Prop) (n : Nat) (x : Act α) (b : α → Nat) : Prop :=
  ∀ o, Spec t may o (Over n o) x fun r => Over (b r) o

/-! ## Plain rules -/

theorem spec_pure {Q : α → List Slot → Prop} (r : α) (h : ∀ l, P l → Q r l) :
    Spec t may keep P (pure r) Q :=
  fun m hm hp => ⟨hm, rfl, h m.world.stack hp⟩

theorem spec_raise {Q : α → List Slot → Prop} (fault : Fault) :
    Spec t True keep P (raise fault) Q :=
  fun _ hm _ => ⟨trivial, hm, rfl⟩

theorem spec_stop {Q : α → List Slot → Prop} (why : Stop) : Spec t may keep P (stop why) Q :=
  fun _ hm _ => hm.recorded

theorem Spec.bind {x : Act α} {f : α → Act β} {Q : α → List Slot → Prop}
    {R : β → List Slot → Prop} (hx : Spec t may keep P x Q)
    (hf : ∀ r, Spec t may keep (Q r) (f r) R) : Spec t may keep P (x >>= f) R := by
  intro m hm hp
  have h := hx m hm hp
  change match Act.bind x f m with | .done _ _ => _ | .raised _ _ => _ | .stopped _ => _
  unfold Act.bind
  cases hr : x m with
  | done r m' =>
    rw [hr] at h
    have h' := hf r m' h.1 h.2.2
    dsimp only
    cases hr' : f r m' with
    | done r' m'' =>
      rw [hr'] at h'
      exact ⟨h'.1, h'.2.1.trans h.2.1, h'.2.2⟩
    | raised e m'' =>
      rw [hr'] at h'
      exact ⟨h'.1, h'.2.1, h'.2.2.trans h.2.1⟩
    | stopped halt =>
      rw [hr'] at h'
      exact h'
  | raised e m' =>
    rw [hr] at h
    exact h
  | stopped halt =>
    rw [hr] at h
    exact h

/-- What an act that has a specification leaves behind. -/
theorem Spec.after {x : Act α} {Q : α → List Slot → Prop} {m m' : Machine} {r : α}
    (hx : Spec t may keep P x Q) (hg : m.Good t keep) (hp : P m.world.stack)
    (hrun : x m = .done r m') : m'.Good t keep ∧ Q r m'.world.stack := by
  have h := hx m hg hp
  rw [hrun] at h
  exact ⟨h.1, h.2.2⟩

/-- After an act that only adds to the stack, the whole stack is kept. -/
theorem Shifts.after {x : Act α} {b : α → Nat} {m m' : Machine} {r : α} (hx : Shifts t may 0 x b)
    (hg : m.Good t m.world.stack) (hrun : x m = .done r m') :
    m'.Good t m'.world.stack ∧ m.world.stack <:+ m'.world.stack := by
  obtain ⟨hg', hover⟩ := Spec.after (hx m.world.stack) hg (over_refl _) hrun
  exact ⟨hg'.raise hover.1 (List.suffix_refl _), hover.1⟩

theorem Spec.map {x : Act α} {f : α → β} {Q : α → List Slot → Prop}
    (hx : Spec t may keep P x Q) {R : β → List Slot → Prop} (hf : ∀ r l, Q r l → R (f r) l) :
    Spec t may keep P (f <$> x) R :=
  hx.bind fun r => spec_pure (f r) (hf r)

/-- Less may be known before, and more than is asked for after. -/
theorem Spec.weaken {x : Act α} {Q Q' : α → List Slot → Prop} {may' : Prop}
    (hx : Spec t may keep P x Q) (hm : may → may') (hp : ∀ l, P' l → P l)
    (hq : ∀ r l, Q r l → Q' r l) : Spec t may' keep P' x Q' := by
  intro m hg hs
  have h := hx m hg (hp _ hs)
  cases hr : x m with
  | done r m' =>
    rw [hr] at h
    exact ⟨h.1, h.2.1, hq _ _ h.2.2⟩
  | raised e m' =>
    rw [hr] at h
    exact ⟨hm h.1, h.2⟩
  | stopped halt =>
    rw [hr] at h
    exact h

/-- An act that keeps more of the stack keeps less of it. -/
theorem Spec.lower {x : Act α} {Q : α → List Slot → Prop} {keep' : List Slot}
    (hx : Spec t may keep' P x Q) (hk : keep <:+ keep') (hp : ∀ l, P l → keep' <:+ l) :
    Spec t may keep P x Q := by
  intro m hm hs
  have h := hx m (hm.raise hk (hp _ hs)) hs
  cases hr : x m with
  | done r m' =>
    rw [hr] at h
    exact ⟨hm.lower h.1 hk h.2.1, h.2⟩
  | raised e m' =>
    rw [hr] at h
    exact ⟨h.1, hm.lower h.2.1 hk h.2.2, h.2.2⟩
  | stopped halt =>
    rw [hr] at h
    exact h

/-- The stack at the beginning may be given a name. -/
theorem Spec.exactly {x : Act α} {Q : α → List Slot → Prop}
    (hx : ∀ l, P l → keep <:+ l → Spec t may keep (· = l) x Q) : Spec t may keep P x Q :=
  fun m hm hp => hx m.world.stack hp hm.keeps m hm rfl

/-! ## Rules for shifts -/

/-- Entries that an act does not need stay where they are. -/
theorem Shifts.spec {x : Act α} {b : α → Nat} (hx : Shifts t may n x b) (hn : n ≤ k) (o : List Slot) :
    Spec t may o (Over k o) x fun r => Over (b r + (k - n)) o := by
  refine Spec.exactly fun l hl _ => ?_
  have hl' : Over ((k - n) + n) o l := hl.mono (by omega)
  refine ((hx (l.drop n)).lower hl'.drop.1 fun l h => h.1).weaken id ?_ fun r l h => ?_
  · rintro l rfl
    exact hl'.split
  · exact hl'.drop.trans h

/-- The base that entries are counted from may lie higher than what is kept. -/
theorem Shifts.above {x : Act α} {b : α → Nat} {l : List Slot} (hx : Shifts t may n x b)
    (hn : n ≤ k) (ho : o <:+ l) :
    Spec t may o (Over k l) x fun r => Over (b r + (k - n)) l :=
  (hx.spec hn l).lower ho fun _ h => h.1

/-- An act that shifts the stack above a base of its own, and what follows it. -/
theorem Shifts.bindAbove {x : Act α} {f : α → Act β} {b : α → Nat} {R : β → List Slot → Prop}
    {l : List Slot} (hx : Shifts t may n x b) (hn : n ≤ k) (ho : o <:+ l)
    (hf : ∀ r, Spec t may o (Over (b r + (k - n)) l) (f r) R) :
    Spec t may o (Over k l) (x >>= f) R :=
  (hx.above hn ho).bind hf

/-- An act that starts on the very stack that its entries are counted from. -/
theorem Spec.here {x : Act α} {Q : α → List Slot → Prop} {l : List Slot}
    (hx : Spec t may keep (Over 0 l) x Q) : Spec t may keep (· = l) x Q :=
  hx.weaken id (fun _ h => h ▸ over_refl l) fun _ _ h => h

theorem Shifts.weaken {x : Act α} {b b' : α → Nat} {may' : Prop} (hx : Shifts t may n x b)
    (hm : may → may') (hn : n ≤ k) (hb : ∀ r, b' r ≤ b r + (k - n)) : Shifts t may' k x b' :=
  fun o => (hx.spec hn o).weaken hm (fun _ h => h) fun r _ h => h.mono (hb r)

/-- An act that shifts the stack, and what follows it. -/
theorem Shifts.bind {x : Act α} {f : α → Act β} {b : α → Nat} {R : β → List Slot → Prop}
    (hx : Shifts t may n x b) (hn : n ≤ k)
    (hf : ∀ r, Spec t may o (Over (b r + (k - n)) o) (f r) R) :
    Spec t may o (Over k o) (x >>= f) R :=
  (hx.spec hn o).bind hf

/-- An act that shifts the stack, at the end of others. -/
theorem Shifts.last {x : Act α} {b b' : α → Nat} (hx : Shifts t may n x b) (hn : n ≤ k)
    (hb : ∀ r, b' r ≤ b r + (k - n)) : Spec t may o (Over k o) x fun r => Over (b' r) o :=
  (hx.spec hn o).weaken id (fun _ h => h) fun r _ h => h.mono (hb r)

/-- The end of an act. -/
theorem over_pure {b : α → Nat} (r : α) (h : b r ≤ k) :
    Spec t may o (Over k o) (pure r) fun r => Over (b r) o :=
  spec_pure r fun _ hl => hl.mono h

theorem shifts_pure (r : α) : Shifts t may 0 (pure r) fun _ => 0 :=
  fun _ => over_pure r (Nat.le_refl 0)

theorem shifts_raise (fault : Fault) (b : α → Nat) : Shifts t True n (raise fault) b :=
  fun _ => spec_raise fault

/-- What holds for the stack as it is holds for all. -/
theorem Shifts.of_exact {x : Act α} {b : α → Nat}
    (hx : ∀ o, Spec t may o (· = o) x fun r => Over (b r) o) : Shifts t may 0 x b := by
  intro o
  refine Spec.exactly fun l hl _ => ?_
  refine ((hx l).lower hl.1 ?_).weaken id (fun _ h => h) fun r l' h => ?_
  · rintro _ rfl
    exact List.suffix_refl _
  · exact (hl.trans h).mono (Nat.le_add_right _ _)

/-! ## The world and the stack -/

theorem spec_world {f : World → Act β} {R : β → List Slot → Prop}
    (hf : ∀ w, Spec t may keep P (f w) R) : Spec t may keep P (world >>= f) R :=
  fun m hm hp => hf m.world m hm hp

theorem spec_top {f : Slot → Act β} {R : β → List Slot → Prop}
    (hf : ∀ s, Spec t may keep P (f s) R) : Spec t may keep P (top >>= f) R :=
  fun m hm hp => hf m.world.top m hm hp

theorem spec_peek {f : Slot → Act β} {R : β → List Slot → Prop} (n : Nat)
    (hf : ∀ s, Spec t may keep P (f s) R) : Spec t may keep P (peek n >>= f) R :=
  fun m hm hp => hf (m.world.stack.getD n .null) m hm hp

/-- Every cell among some slots has a reference in the stack `l`. -/
def Covers (l slots : List Slot) : Prop :=
  ∀ id, Slot.cell id ∈ slots → Slot.cell id ∈ l

theorem Covers.mono {l l' slots : List Slot} (h : Covers l slots) (hl : l <:+ l') :
    Covers l' slots :=
  fun id hid => hl.subset (h id hid)

theorem Covers.append {l slots slots' : List Slot} (h : Covers l slots) (h' : Covers l slots') :
    Covers l (slots ++ slots') :=
  fun id hid => (List.mem_append.mp hid).elim (h id) (h' id)

theorem covers_newest (w : World) (n : Nat) : Covers w.stack (w.newest n) :=
  fun _ hid => List.mem_of_mem_take (List.mem_reverse.mp hid)

theorem covers_getD (w : World) (n : Nat) : Covers w.stack [w.stack.getD n .null] := by
  intro id hid
  rw [List.mem_singleton] at hid
  cases hs : w.stack[n]? with
  | none => simp [List.getD, hs, Slot.null] at hid
  | some s =>
    simp only [List.getD, hs, Option.getD_some] at hid
    exact hid ▸ List.mem_of_getElem? hs

theorem spec_peekAt {f : Slot → Act β} {R : β → List Slot → Prop} {l : List Slot} (n : Nat)
    (hf : ∀ s, Covers l [s] → Spec t may keep (· = l) (f s) R) :
    Spec t may keep (· = l) (peek n >>= f) R := by
  rintro m hm rfl
  exact hf _ (covers_getD m.world n) m hm rfl

theorem covers_top (w : World) : Covers w.stack [w.top] := by
  intro id hid
  cases hs : w.stack with
  | nil => simp [World.top, hs, Slot.null] at hid
  | cons s rest =>
    simp only [World.top, hs, List.headD_cons, List.mem_singleton] at hid
    simp [hid]

theorem spec_topAt {f : Slot → Act β} {R : β → List Slot → Prop} {l : List Slot}
    (hf : ∀ s, Covers l [s] → Spec t may keep (· = l) (f s) R) :
    Spec t may keep (· = l) (top >>= f) R := by
  rintro m hm rfl
  exact hf _ (covers_top m.world) m hm rfl

theorem spec_newestAt {f : List Slot → Act β} {R : β → List Slot → Prop} {l : List Slot} (n : Nat)
    (hf : ∀ slots, Covers l slots → Spec t may keep (· = l) (f slots) R) :
    Spec t may keep (· = l) (newest n >>= f) R := by
  rintro m hm rfl
  exact hf _ (covers_newest m.world n) m hm rfl

theorem spec_height {f : Nat → Act β} {R : β → List Slot → Prop} {l : List Slot}
    (hf : Spec t may keep (· = l) (f l.length) R) :
    Spec t may keep (· = l) (height >>= f) R := by
  intro m hm hp
  have h := hf m hm hp
  rw [← hp] at h
  exact h

theorem spec_change {f : World → World} {Q : List Slot → Prop}
    (hm : ∀ w, World.Move t w (f w))
    (hf : ∀ w, P w.stack → keep <:+ w.stack → keep <:+ (f w).stack ∧ Q (f w).stack) :
    Spec t may keep P (change f) fun _ => Q :=
  fun m hg hp =>
    have h := hf m.world hp hg.keeps
    ⟨hg.move (hm m.world) h.1, rfl, h.2⟩

theorem over_change {f : World → World} (hm : ∀ w, World.Move t w (f w))
    (hf : ∀ w : World, Over n o w.stack → Over k o (f w).stack) :
    Spec t may o (Over n o) (change f) fun _ => Over k o :=
  spec_change hm fun w hw _ => ⟨(hf w hw).1, hf w hw⟩

theorem shifts_change {f : World → World} (hm : ∀ w, World.Move t w (f w))
    (hf : ∀ (w : World) (o : List Slot), Over n o w.stack → Over k o (f w).stack) :
    Shifts t may n (change f) fun _ => k :=
  fun o => over_change hm fun w => hf w o

theorem shifts_push (v : Scalar) : Shifts t may 0 (push v) fun _ => 1 :=
  shifts_change (fun w => w.move_push t v) fun _ _ h => World.over_push h v

theorem shifts_share (s : Slot) : Shifts t may 0 (share s) fun _ => 1 :=
  shifts_change (fun w => w.move_share t s) fun _ _ h => World.over_share h s

theorem shifts_drop : Shifts t may 1 drop fun _ => 0 :=
  shifts_change (World.move_dropTop t) fun _ _ h => World.over_drop h

theorem shifts_settle (n : Nat) : Shifts t may (1 + n) (settle n) fun _ => 1 :=
  shifts_change (fun w => w.move_settle t n) fun _ _ h =>
    World.over_settle (n := 0) (h.mono (by omega))

theorem spec_unwind (o : List Slot) :
    Spec t may o (Over 0 o) (unwind o.length) fun _ l => l = o :=
  spec_change (fun w => w.move_unwind t _) fun w h _ => by
    rw [World.over_unwind h]
    exact ⟨List.suffix_refl o, rfl⟩

theorem spec_settleTo (o : List Slot) :
    Spec t may o (Over 1 o) (settleTo o.length) fun _ => Over 1 o :=
  over_change (fun w => w.move_settle t _) fun _ h => World.over_settleTo h

theorem spec_note {event : Event} (hp : event.isPlain = true)
    (hq : event.isQuiet = true → ∀ l, P l → l = []) : Spec t may keep P (note event) fun _ => P :=
  fun _ hm hs => ⟨hm.plain hp fun h => hq h _ hs, openCalls_plain hp _ _, hs⟩

/-- Acts between two changes after the first of which other limits hold, up to the second. -/
theorem spec_inside {t' : Limits} {f g : World → World} {x : Act α} {next : α → Act β}
    {P' : List Slot → Prop} {Q' Q : α → List Slot → Prop} {R : β → List Slot → Prop}
    (ht : t'.lossless ↔ t.lossless)
    (hf : ∀ w, w.Sound t → P w.stack → (f w).Sound t' ∧ w.heap.Later (f w).heap ∧
      keep <:+ (f w).stack ∧ P' (f w).stack)
    (hx : Spec t' False keep P' x Q')
    (hg : ∀ w r, w.Sound t' → Q' r w.stack → (g w).Sound t ∧ w.heap.Later (g w).heap ∧
      keep <:+ (g w).stack ∧ Q r (g w).stack)
    (hn : ∀ r, Spec t False keep (Q r) (next r) R) :
    Spec t False keep P (change f >>= fun _ => x >>= fun r => change g >>= fun _ => next r) R := by
  intro m hm hp
  obtain ⟨hs, hl, hk, hp'⟩ := hf m.world hm.sound hp
  have h := hx { m with world := f m.world } (hm.world hs hl ht hk (List.Subset.refl keep)) hp'
  have he : (change f >>= fun _ => x >>= fun r => change g >>= fun _ => next r) m =
      Act.bind x (fun r m' => next r { m' with world := g m'.world })
        { m with world := f m.world } := rfl
  rw [he]
  unfold Act.bind
  cases hr : x { m with world := f m.world } with
  | done r m' =>
    rw [hr] at h
    obtain ⟨hs', hl', hk', hq⟩ := hg m'.world r h.1.sound h.2.2
    have h' := hn r { m' with world := g m'.world }
      (h.1.world hs' hl' ht.symm hk' (List.Subset.refl keep)) hq
    dsimp only
    cases hr' : next r { m' with world := g m'.world } with
    | done r' m'' =>
      rw [hr'] at h'
      exact ⟨h'.1, h'.2.1.trans h.2.1, h'.2.2⟩
    | raised e m'' =>
      rw [hr'] at h'
      exact h'.1.elim
    | stopped halt =>
      rw [hr'] at h'
      exact h'
  | raised e m' =>
    rw [hr] at h
    exact h.1.elim
  | stopped halt =>
    rw [hr] at h
    exact propext ht ▸ h

/-! ## Guards, faults and loops -/

theorem Spec.guarded {x : Act α} {Q : α → List Slot → Prop} (hx : Spec t may keep P x Q)
    (g : Guard) : Spec t may keep P (guarded g x) Q := by
  intro m hm hp
  have h := hx _ (hm.move (m.world.move_guard t g) hm.keeps) hp
  unfold Act.guarded
  cases hr : x { m with world := m.world.guard g } with
  | done r m' =>
    rw [hr] at h
    exact ⟨h.1.move (m'.world.move_unguard t g) h.1.keeps, h.2⟩
  | raised e m' =>
    rw [hr] at h
    exact ⟨h.1, h.2.1.move (m'.world.move_unguard t g) h.2.1.keeps, h.2.2⟩
  | stopped halt =>
    rw [hr] at h
    exact h

theorem Spec.accessing {x refused : Act α} {Q : α → List Slot → Prop}
    (hx : Spec t may keep P x Q) (hr : Spec t may keep P refused Q) (g : Guard) :
    Spec t may keep P (accessing g x refused) Q := by
  refine spec_world fun w => ?_
  split
  · exact hx.guarded g
  · exact hr

theorem Spec.surely {x : Act α} {Q : α → List Slot → Prop} (hx : Spec t may keep P x Q)
    (g : Guard) : Spec t may keep P (surely g x) Q :=
  hx.accessing (spec_stop _) g

theorem Spec.attempt {x : Act α} {Q : α → List Slot → Prop} (hx : Spec t True o P x Q) :
    Spec t may o P (attempt x) fun r l =>
      match r with
      | .ok r => Q r l
      | .error _ => Over 0 o l := by
  intro m hm hp
  have h := hx m hm hp
  unfold Act.attempt
  cases hr : x m with
  | done r m' =>
    rw [hr] at h
    exact h
  | raised e m' =>
    rw [hr] at h
    exact ⟨h.2.1, h.2.2, over_zero.mpr h.2.1.keeps⟩
  | stopped halt =>
    rw [hr] at h
    exact h

/-- A fault takes the stack back to where it was. -/
theorem Spec.recover {x : Act α} {Q : α → List Slot → Prop}
    (hx : Spec t True o (· = o) x Q) :
    Spec t may o (· = o) (recover x) fun r l =>
      match r with
      | .ok r => Q r l
      | .error _ => l = o := by
  refine spec_height (hx.attempt.bind fun r => ?_)
  cases r with
  | ok r => exact spec_pure _ fun _ h => h
  | error fault => exact (spec_unwind o).bind fun _ => spec_pure _ fun _ h => h

theorem repeatWhile_succ (test : Act Bool) (body : Act Unit) (patience : Nat) :
    repeatWhile test body (patience + 1) = (do
      let go ← test
      if go then do
        body
        repeatWhile test body patience
      else pure ()) := by
  funext m
  change repeatWhile test body (patience + 1) m = Act.bind test _ m
  simp only [repeatWhile, Act.bind]
  cases test m with
  | done go m' =>
    cases go with
    | false => rfl
    | true =>
      change _ = Act.bind body _ m'
      simp only [Act.bind]
      cases body m' <;> rfl
  | raised e m' => rfl
  | stopped halt => rfl

/-- A loop keeps what its test and its body keep. -/
theorem Spec.repeatWhile {test : Act Bool} {body : Act Unit}
    (ht : Spec t may keep P test fun _ => P) (hb : Spec t may keep P body fun _ => P)
    (patience : Nat) : Spec t may keep P (repeatWhile test body patience) fun _ => P := by
  induction patience with
  | zero => exact spec_stop _
  | succ patience ih =>
    rw [repeatWhile_succ]
    refine ht.bind fun go => ?_
    cases go with
    | false => exact spec_pure _ fun _ h => h
    | true => exact hb.bind fun _ => ih

end Enclave.Act
