import Enclave.Proofs.Program.Readings

/-! # Acts that mind the counters

An act minds the counters when the machine is in order after it too, and nothing has come to hand that
scripts must not have. Members, globals and operators do, as long as no counter is written to and the class
stays in its global.
-/
namespace Enclave

open Program

namespace World

variable {w : World} {s old : Slot} {rest xs : List Slot}

theorem restacks_settle (w : World) (n : Nat) : w.Restacks (w.settle n) := by
  unfold settle
  split
  · exact w.restacks_refl
  · exact ⟨_, _, rfl⟩

theorem restacks_replaceBelow (w : World) (n : Nat) : w.Restacks (w.replaceBelow n) := by
  unfold replaceBelow
  split
  · exact w.restacks_refl
  · split
    · exact w.restacks_refl
    · exact ⟨_, _, rfl⟩

theorem keeps_replaceBelow (w : World) (n : Nat) : w.Keeps (w.replaceBelow n) := by
  unfold replaceBelow
  split
  · exact .refl w
  · split
    · exact .refl w
    · exact keeps_release w _ _

theorem stack_settle (hs : w.stack = s :: (xs ++ rest)) : (w.settle xs.length).stack = s :: rest := by
  simp [settle, hs]

theorem stack_drop (hs : w.stack = s :: rest) : w.drop.stack = rest := by
  simp only [drop, hs]

end World

namespace Machine

variable {m m₁ m' : Machine} {rest : List Slot}

/-- Over the lower part `rest` of the stack stands one entry, which scripts may have. -/
def Tops (rest : List Slot) (m : Machine) : Prop :=
  ∃ s, m.world.stack = s :: rest ∧ s.Public

theorem Tops.stack (h : m.Tops rest) : m.world.stack = m.world.top :: rest := by
  obtain ⟨s, hs, -⟩ := h
  rw [World.top_of_stack hs, hs]

/-- One entry has come to hand. -/
structure Hands (m m' : Machine) : Prop where
  tops : m'.Tops m.world.stack
  keeps : m.world.Keeps m'.world

theorem Counts.moves {w : World} (h : m.Counts) (hr : m.world.Restacks w) (hk : m.world.Keeps w) :
    Machine.Counts { m with world := w } :=
  h.keeps (beside_of_restacks hr) (sameCalls_of_moments rfl) hk

end Machine

namespace Act

variable {α β : Type} {t : Limits} {m m' : Machine} {x y : Act α} {f : α → Act β}
  {Q Q' : α → Machine → Prop} {R : β → Machine → Prop} {s target key : Slot} {rest xs : List Slot}
  {name : String} {id : CellId} {p : Payload}

/-- If the act comes to its end, the machine is in order there, and the result is as `Q` says. -/
def Minds (x : Act α) (m : Machine) (Q : α → Machine → Prop) : Prop :=
  ∀ r m', x m = .done r m' → m'.Counts ∧ Q r m'

/-! ## Rules -/

theorem Minds.bind (hx : Minds x m Q)
    (hf : ∀ r m₁, x m = .done r m₁ → m₁.Counts → Q r m₁ → Minds (f r) m₁ R) :
    Minds (x >>= f) m R := by
  intro r m' hrun
  obtain ⟨a, m₁, hfirst, hrest⟩ := bind_done_iff.mp hrun
  obtain ⟨h₁, hq⟩ := hx a m₁ hfirst
  exact hf a m₁ hfirst h₁ hq r m' hrest

theorem Minds.weaken (hx : Minds x m Q) (hq : ∀ r m', Q r m' → Q' r m') : Minds x m Q' := by
  intro r m' hrun
  obtain ⟨h', h⟩ := hx r m' hrun
  exact ⟨h', hq r m' h⟩

theorem Minds.tops (hx : Minds x m fun _ m' => m.Hands m') :
    Minds x m fun _ m' => m'.Tops m.world.stack :=
  hx.weaken fun _ _ hhands => hhands.tops

theorem minds_congr (hxy : x m = y m) (hy : Minds y m Q) : Minds x m Q := by
  intro r m' hrun
  exact hy r m' (hxy ▸ hrun)

theorem minds_raise (fault : Fault) : Minds (raise fault : Act α) m Q := by
  intro r m' hrun
  cases hrun

theorem minds_pure (h : m.Counts) (r : α) (hq : Q r m) : Minds (pure r) m Q := by
  rintro _ _ ⟨⟩
  exact ⟨h, hq⟩

theorem minds_world {f : World → Act β} (hf : Minds (f m.world) m R) : Minds (world >>= f) m R :=
  hf

theorem minds_top {f : Slot → Act β} (hf : Minds (f m.world.top) m R) : Minds (top >>= f) m R :=
  hf

theorem minds_peek {f : Slot → Act β} (n : Nat) (hf : Minds (f (m.world.stack.getD n .null)) m R) :
    Minds (peek n >>= f) m R :=
  hf

theorem minds_newest {f : List Slot → Act β} (n : Nat) (hf : Minds (f (m.world.newest n)) m R) :
    Minds (newest n >>= f) m R :=
  hf

theorem minds_change {f : World → World} {Q : Unit → Machine → Prop}
    (h : Machine.Counts { m with world := f m.world }) (hq : Q () { m with world := f m.world }) :
    Minds (change f) m Q := by
  rintro _ _ ⟨⟩
  exact ⟨h, hq⟩

/-! ## The working stack -/

section Stack

variable (h : m.Counts)
include h

theorem minds_share (hs : s.Public) : Minds (share s) m fun _ m' => m.Hands m' := by
  have hk := m.world.keeps_share s
  refine minds_change (h.moves (m.world.restacks_share s) hk) ⟨⟨m.world.found s, ?_, hs.found _⟩, hk⟩
  rw [World.share_eq]

theorem minds_push (v : Scalar) : Minds (push v) m fun _ m' => m.Hands m' :=
  minds_share h (Slot.public_scalar v)

theorem minds_drop (hs : m.world.stack = s :: rest) :
    Minds drop m fun _ m' => m'.world.stack = rest :=
  minds_change (h.moves m.world.restacks_drop m.world.keeps_drop) (World.stack_drop hs)

/-- Of an entry and of those under it, the first stays. -/
theorem minds_settle (xs : List Slot) {n : Nat} (hs : m.world.stack = s :: (xs ++ rest))
    (hn : xs.length = n) (hpublic : s.Public) : Minds (settle n) m fun _ m' => m'.Tops rest := by
  have hcounts := h.moves (m.world.restacks_settle n) (m.world.keeps_settle n)
  exact minds_change hcounts ⟨s, hn ▸ World.stack_settle hs, hpublic⟩

/-- A scalar takes the place of what is above some part of the stack. -/
theorem minds_pushSettle (v : Scalar) (xs : List Slot) {n : Nat} (hs : m.world.stack = xs ++ rest)
    (hn : xs.length = n) : Minds (push v >>= fun _ => settle n) m fun _ m' => m'.Tops rest := by
  refine (minds_push h v).bind fun _ m₁ hrun h₁ _ => ?_
  cases hrun
  have hstack : (m.world.push v).stack = .scalar v :: (xs ++ rest) := congrArg _ hs
  exact minds_settle h₁ xs hstack hn (Slot.public_scalar v)

end Stack

/-! ## Members -/

/-- A counter has its number for a property. -/
theorem counter_member (w : World) (n : Float) :
    (counter n).member w (.scalar (.string countKey)) = .scalar (.number n) :=
  rfl

/-- Of a counter scripts may have the number, and of all else every member. -/
theorem member_public (h : m.Counts) (hid : (Slot.cell id).Public)
    (hp : m.world.heap.payload? id = some p)
    (hkey : m.world.IsCounter id → key = .scalar (.string countKey)) :
    (p.member m.world key).Public := by
  rcases h.hand_cases hid hp with rfl | ⟨rfl, hlt⟩ | ⟨-, hplain, hslots⟩
  · simp only [Payload.member]
    split <;> exact Slot.public_scalar _
  · rw [hkey ⟨_, hp, rfl⟩, counter_member]
    exact Slot.public_scalar _
  · exact hplain.member hslots _ key

theorem minds_getMember (h : m.Counts) (ht : target.Public)
    (hkey : ∀ id, target = .cell id → m.world.IsCounter id → key = .scalar (.string countKey)) :
    Minds (getMember target key) m fun _ m' => m.Hands m' := by
  cases target with
  | scalar v =>
    cases v with
    | null => exact minds_raise _
    | number | bool => exact minds_push h _
    | string text =>
      apply minds_world
      dsimp only
      split
      · exact minds_push h _
      · exact minds_push h _
  | cell id =>
    cases hp : m.world.heap.payload? id with
    | none =>
      have hhidden : m.world.visible? id = none := (h.visible? id).trans hp
      exact minds_congr (reading_hidden hhidden (unguarded_push .null)) (minds_push h _)
    | some p =>
      exact minds_congr (getMember_eq ((h.visible? id).trans hp) key)
        (minds_share h (member_public h ht hp (hkey id rfl)))

/-- What scripts may have goes into a member of what is no counter. -/
theorem minds_setMember (h : m.Counts) (hg : m.Good t []) (hs : m.world.stack = s :: rest)
    (hmem : target ∈ rest) (ht : target.Public)
    (hspared : ∀ id, target = .cell id → ¬ m.world.IsCounter id) (hpublic : s.Public) (key : Slot) :
    Minds (setMember target key) m fun _ m' => m'.world.stack = rest := by
  cases target with
  | scalar v => exact minds_raise _
  | cell id =>
    have hlive : m.world.heap.isLive id = true := by
      apply World.isLive_of_stack hg.sound.counted
      rw [hs]
      exact List.mem_cons_of_mem _ hmem
    obtain ⟨p, hp⟩ := Heap.exists_payload? hlive
    have hkind := World.kindOf_of_visible hg.sound.counted.proper ((h.visible? id).trans hp)
    have hrun := setMember_eq hkind ((h.writable? id).trans hp) hs key
    intro _ m' hdone
    rw [hrun] at hdone
    rcases h.hand_cases ht hp with rfl | ⟨rfl, -⟩ | ⟨hid, hplain, hslots⟩
    · cases hdone
    · exact absurd ⟨_, hp, rfl⟩ (hspared id rfl)
    · cases hassign : p.assign m.world key s with
      | error fault =>
        rw [hassign] at hdone
        cases hdone
      | ok exchanged =>
        obtain ⟨q, old⟩ := exchanged
        rw [hassign] at hdone
        cases hdone
        obtain ⟨hq, hnew⟩ := hplain.assign hslots hpublic hassign
        have hsets := World.sets_write hp q [old] rest
        have hlt := Nat.lt_of_lt_of_le (Heap.lt_next_of_payload? hp) hsets.later.next
        have hcalls : ∀ x, x ≠ id → m.SameCalls _ x := fun x _ => Machine.sameCalls_of_moments rfl x
        exact ⟨h.sets ⟨rfl, rfl, rfl⟩ hsets hcalls hlt (.plain hid hq hnew), rfl⟩

/-! ## Globals -/

/-- What a global holds comes to hand. -/
theorem minds_loadGlobal (h : m.Counts) (name : String) :
    Minds (loadGlobal 0 name) m fun _ m' => m.Hands m' := by
  have hload := loadGlobal_eq (h.canRead (.scope 0)) name
  cases hglobal : m.world.global? 0 name with
  | none =>
    rw [hglobal] at hload
    intro _ m' hrun
    cases hload.symm.trans hrun
  | some s =>
    rw [hglobal] at hload
    exact minds_congr hload (minds_share h (h.globals name s hglobal))

/-- A name other than that of the class gets a value. -/
theorem minds_declare (h : m.Counts) (hs : m.world.stack = s :: rest) (hx : name ≠ className)
    (hpublic : s.Public) : Minds (declare 0 name) m fun _ m' => m'.world.stack = rest := by
  obtain ⟨globals, hglobals, hbound⟩ := Option.bind_eq_some_iff.mp h.bound
  let globals' := globals.put name s
  let dropped := [(globals.get? name).getD .null]
  let w : World := { m.world.setScope 0 (some globals') with
    heap := m.world.heap.releaseSlots dropped, stack := rest }
  have hdone : declare 0 name m = .done () { m with world := w } := by
    rw [declare_eq, if_pos (h.canWrite _), World.drop_exchangeGlobal name hs hglobals]
  have hk : m.world.Keeps w :=
    ⟨Heap.later_releaseSlots _ _, fun _ _ => Heap.payload?_of_releaseAll⟩
  have hget : ∀ y, w.global? 0 y = globals'.get? y := by
    intro y
    have hscope : w.scope? 0 = some globals' := (World.scope?_setScope hglobals _ _).trans (if_pos rfl)
    rw [World.global?, hscope, Option.bind_some]
  have hother : ∀ y, y ≠ name → w.global? 0 y = m.world.global? 0 y := by
    intro y hy
    rw [hget, Table.get?_put_of_ne _ _ hy, World.global?, hglobals, Option.bind_some]
  intro _ m' hrun
  rw [hdone] at hrun
  cases hrun
  refine ⟨⟨⟨h.free, h.engine⟩, (hother _ (Ne.symm hx)).trans h.bound, ?_, ?_, ?_, ?_⟩, rfl⟩
  · intro y r hr
    by_cases hyx : y = name
    · have hself : globals'.get? name = some s := Table.get?_put_self globals name s
      rw [hget, hyx, hself] at hr
      cases hr
      exact hpublic
    · rw [hother y hyx] at hr
      exact h.globals y r hr
  · exact Nat.lt_of_lt_of_le h.room hk.later.next
  · intro id p hp
    have hsame : m.SameCalls { m with world := w } id := Machine.sameCalls_of_moments rfl id
    exact (h.cells id p (hk.payload id p hp)).later hsame.reading
  · intro place id hplace hnoted
    exact Nat.lt_of_lt_of_le (h.noted place id hplace hnoted) hk.later.next

theorem minds_storeGlobal (h : m.Counts) (hs : m.world.stack = s :: rest) (hx : name ≠ className)
    (hpublic : s.Public) : Minds (storeGlobal 0 name) m fun _ m' => m'.world.stack = rest := by
  have hcopy : Minds (copyGlobal 0 name) m fun found m₁ =>
      found = true → ∃ r, m₁.world.stack = r :: m.world.stack := by
    refine minds_congr (copyGlobal_eq (h.canRead _) name) ?_
    cases hr : m.world.global? 0 name with
    | none => exact minds_pure h _ fun hfound => by cases hfound
    | some r =>
      refine (minds_share h (h.globals name r hr)).bind fun _ m₁ _ h₁ hhands => ?_
      exact minds_pure h₁ _ fun _ => ⟨_, hhands.tops.stack⟩
  refine hcopy.bind fun found m₁ _ h₁ hfound => ?_
  cases found with
  | false => exact minds_raise _
  | true =>
    obtain ⟨r, hr⟩ := hfound rfl
    refine (minds_drop h₁ hr).bind fun _ m₂ _ h₂ hs₂ => ?_
    exact minds_declare h₂ (hs₂.trans hs) hx hpublic

/-! ## Places -/

end Act

namespace Location

/-- The entries that hold on to the place, newest first. -/
def held : Location → List Slot
  | «global» _ => []
  | member target key => [key, target]

theorem length_held (place : Location) : place.held.length = place.width := by
  cases place <;> rfl

/-- The place may be written: it is neither the global of the class nor in a counter. -/
def Spared (m : Machine) : Location → Prop
  | «global» name => name ≠ className
  | member target _ => ∀ id, target = .cell id → ¬ m.world.IsCounter id

theorem Spared.keeps {m m₁ : Machine} {place : Location} (h : place.Spared m)
    (hk : m.world.Keeps m₁.world) : place.Spared m₁ := by
  cases place with
  | «global» name => exact h
  | member target key =>
    rintro id hid ⟨p, hp, hcounter⟩
    exact h id hid ⟨p, hk.payload id p hp, hcounter⟩

end Location

namespace Act

section Places

variable {place : Location} (h : m.Counts) (hpublic : ∀ r ∈ place.held, r.Public)
  (hspared : place.Spared m)
include h hpublic hspared

theorem minds_load : Minds (load 0 place) m fun _ m' => m.Hands m' := by
  cases place with
  | «global» name => exact minds_loadGlobal h name
  | member target key =>
    have ht : target.Public := hpublic target (by simp [Location.held])
    exact minds_getMember h ht fun id hid hcounter => absurd hcounter (hspared id hid)

theorem minds_store (hg : m.Good t []) (hs : m.world.stack = s :: rest) (hheld : place.held ⊆ rest)
    (hvalue : s.Public) : Minds (store 0 place) m fun _ m' => m'.world.stack = rest := by
  cases place with
  | «global» name => exact minds_storeGlobal h hs hspared hvalue
  | member target key =>
    have ht : target ∈ (Location.member target key).held := by simp [Location.held]
    exact minds_setMember h hg hs (hheld ht) (hpublic target ht) hspared hvalue key

/-- A scalar goes into a place, which is let go of with all that is above the rest of the stack. -/
theorem minds_putScalar (hg : m.Good t []) (v r : Scalar) (hs : m.world.stack = place.held ++ rest) :
    Minds (push v >>= fun _ => store 0 place >>= fun _ => push r >>= fun _ => settle place.width) m
      fun _ m' => m'.Tops rest := by
  refine (minds_push h v).bind fun _ m₁ hrun h₁ hhands => ?_
  cases hrun
  have hg₁ := hg.move (World.move_push t m.world v) List.nil_suffix
  have hs₁ : (m.world.push v).stack = .scalar v :: (place.held ++ rest) := congrArg _ hs
  refine (minds_store h₁ hpublic (hspared.keeps hhands.keeps) hg₁ hs₁ (List.subset_append_left _ _)
    (Slot.public_scalar v)).bind fun _ m₂ _ h₂ hs₂ => ?_
  exact minds_pushSettle h₂ r _ hs₂ place.length_held

/-! ## Operators -/

/-- An operator works on what a place holds and on the value on top of the place's entries. -/
theorem minds_compound (hg : m.Good t []) (hs : m.world.stack = s :: (place.held ++ rest))
    (op : BinaryOp) :
    Minds (do
      let right ← top
      load 0 place
      let left ← top
      let w ← world
      let v := w.binary op left right
      drop
      push v
      push v
      store 0 place
      settle (place.width + 1)) m fun _ m' => m'.Tops rest := by
  apply minds_top
  refine (minds_load h hpublic hspared).bind fun _ m₁ hload h₁ hhands => ?_
  have hg₁ := (shifts_load 0 place []).after hg (over_zero.mpr hg.keeps) hload
  apply minds_top
  apply minds_world
  obtain ⟨v, hv⟩ : ∃ v, m₁.world.binary op m₁.world.top m.world.top = v := ⟨_, rfl⟩
  simp only [hv]
  refine (minds_drop h₁ hhands.tops.stack).bind fun _ m₂ hdrop h₂ hs₂ => ?_
  cases hdrop
  have hg₂ := hg₁.1.move (World.move_dropTop t m₁.world) List.nil_suffix
  refine (minds_push h₂ v).bind fun _ m₃ hrun h₃ hhands₃ => ?_
  cases hrun
  have hg₃ := hg₂.move (World.move_push t _ v) List.nil_suffix
  refine (minds_push h₃ v).bind fun _ m₄ hrun h₄ hhands₄ => ?_
  cases hrun
  have hg₄ := hg₃.move (World.move_push t _ v) List.nil_suffix
  have hs₄ : ((m₁.world.drop.push v).push v).stack =
      .scalar v :: .scalar v :: s :: (place.held ++ rest) := by
    change _ :: _ :: m₁.world.drop.stack = _
    rw [show m₁.world.drop.stack = m.world.stack from hs₂, hs]
  have hkeeps : m.world.Keeps ((m₁.world.drop.push v).push v) :=
    hhands.keeps.trans (m₁.world.keeps_drop.trans (hhands₃.keeps.trans hhands₄.keeps))
  refine (minds_store h₄ hpublic (hspared.keeps hkeeps) hg₄ hs₄ ?_ (Slot.public_scalar v)).bind
    fun _ m₅ _ h₅ hs₅ => ?_
  · intro r hr
    exact List.mem_cons_of_mem _ (List.mem_cons_of_mem _ (List.mem_append_left _ hr))
  · exact minds_settle h₅ (s :: place.held) hs₅ (congrArg (· + 1) place.length_held)
      (Slot.public_scalar v)

/-- The value on top of a place's entries goes into the place, and stays as the value of the whole. -/
theorem minds_assignTo (hg : m.Good t []) (op : AssignOp)
    (hs : m.world.stack = s :: (place.held ++ rest)) (hvalue : s.Public) :
    Minds (assignTo 0 place op) m fun _ m' => m'.Tops rest := by
  have hcompound := minds_compound h hpublic hspared hg hs
  unfold assignTo
  cases op with
  | set =>
    have htop : m.world.top = s := World.top_of_stack hs
    apply minds_top
    rw [htop]
    refine (minds_share h hvalue).bind fun _ m₁ hshare h₁ hhands => ?_
    have hg₁ : m₁.Good t [] := by
      cases hshare
      exact hg.move (World.move_share t m.world s) List.nil_suffix
    obtain ⟨r, hr, hpublic₁⟩ := hhands.tops
    rw [hs] at hr
    refine (minds_store h₁ hpublic (hspared.keeps hhands.keeps) hg₁ hr ?_ hpublic₁).bind
      fun _ m₂ _ h₂ hs₂ => minds_settle h₂ _ hs₂ place.length_held hvalue
    intro r hr
    exact List.mem_cons_of_mem _ (List.mem_append_left _ hr)
  | add | subtract | multiply => exact hcompound _
  | other => exact minds_raise _

theorem minds_updateAt (hg : m.Good t []) (hs : m.world.stack = place.held ++ rest)
    (grows returnsNew : Bool) :
    Minds (updateAt 0 place grows returnsNew) m fun _ m' => m'.Tops rest := by
  refine (minds_load h hpublic hspared).bind fun _ m₁ hload h₁ hhands => ?_
  have hg₁ := (shifts_load 0 place []).after hg (over_zero.mpr hg.keeps) hload
  apply minds_top
  refine (minds_drop h₁ hhands.tops.stack).bind fun _ m₂ hdrop h₂ hs₂ => ?_
  cases hdrop
  have hg₂ := hg₁.1.move (World.move_dropTop t m₁.world) List.nil_suffix
  have hkeeps : m.world.Keeps m₁.world.drop := hhands.keeps.trans m₁.world.keeps_drop
  exact minds_putScalar h₂ hpublic (hspared.keeps hkeeps) hg₂ _ _ (Eq.trans hs₂ hs)

end Places

theorem minds_applyUnary (h : m.Counts) (hs : m.world.stack = s :: rest) (op : UnaryOp) :
    Minds (applyUnary op) m fun _ m' => m'.Tops rest := by
  have hanswer : ∀ v, Minds (push v >>= fun _ => settle 1) m fun _ m' => m'.Tops rest :=
    fun v => minds_pushSettle h v [s] hs rfl
  apply minds_top
  apply minds_world
  cases op with
  | minus | plus | negate | typeOf => exact hanswer _
  | invert | discard | delete => exact minds_raise _

theorem minds_applyBinary (h : m.Counts) {l r : Slot} (hs : m.world.stack = r :: l :: rest)
    (op : BinaryOp) : Minds (applyBinary op) m fun _ m' => m'.Tops rest := by
  apply minds_peek
  apply minds_top
  apply minds_world
  exact minds_pushSettle h _ [r, l] hs rfl

/-- What a member expression does with its target and its key. -/
theorem minds_readMember (h : m.Counts) (hs : m.world.stack = key :: target :: rest) (ht : target.Public)
    (hkey : ∀ id, target = .cell id → m.world.IsCounter id → key = .scalar (.string countKey)) :
    Minds readMember m fun _ m' => m'.Tops rest := by
  have hpeek : m.world.stack.getD 1 .null = target := by rw [hs]; rfl
  apply minds_peek
  rw [hpeek]
  apply minds_top
  rw [World.top_of_stack hs]
  refine (minds_getMember h ht hkey).bind fun _ m₁ _ h₁ hhands => ?_
  obtain ⟨s, hs₁, hpublic⟩ := hhands.tops
  rw [hs] at hs₁
  exact minds_settle h₁ [key, target] hs₁ rfl hpublic

/-! ## Arrays and objects -/

/-- The newest entries go into a new cell that is plain. -/
theorem minds_install (h : m.Counts) {q : Payload} (hs : m.world.stack = xs ++ rest) (hq : q.Plain)
    (hslots : q.slots ⊆ xs) (hpublic : ∀ s ∈ xs, s.Public) :
    Minds (change fun w => (w.pop xs.length).install q) m fun _ m' => m'.Tops rest := by
  have hpop : m.world.pop xs.length = { m.world with stack := rest } := by
    rw [World.pop, hs, List.drop_left]
  have hsets : m.world.Sets m.world.heap.next q ((m.world.pop xs.length).install q) := by
    rw [hpop]
    exact World.sets_install m.world rest q
  have hlt : m.world.heap.next < ((m.world.pop xs.length).install q).heap.next := by
    rw [show ((m.world.pop xs.length).install q).heap.next = _ from Heap.next_alloc _ _]
    exact Nat.lt_succ_self _
  refine minds_change (h.sets ⟨rfl, rfl, rfl⟩ hsets (fun x _ => Machine.sameCalls_of_moments rfl x) hlt
    (.plain (.inr h.room) hq fun s hs => hpublic s (hslots hs))) ⟨.cell m.world.heap.next, ?_,
      Slot.public_cell (.inr h.room)⟩
  rw [hpop]
  rfl

theorem minds_allocArray (h : m.Counts) (hs : m.world.stack = xs ++ rest)
    (hpublic : ∀ s ∈ xs, s.Public) :
    Minds (change (·.allocArray xs.length)) m fun _ m' => m'.Tops rest := by
  have hnewest : m.world.newest xs.length = xs.reverse := by
    rw [World.newest, hs, List.take_left]
  have hinstall := minds_install (q := .array xs.reverse.toArray) h hs trivial
    (fun s hs => by simpa [Payload.slots] using hs) hpublic
  refine minds_congr ?_ hinstall
  change Outcome.done () { m with world := (m.world.pop _).install (.array (m.world.newest _).toArray) } = _
  rw [hnewest]
  rfl

theorem minds_allocObject (h : m.Counts) {keys : List String} (hs : m.world.stack = xs ++ rest)
    (hn : xs.length = keys.length) (hpublic : ∀ s ∈ xs, s.Public) :
    Minds (change (·.allocObject keys)) m fun _ m' => m'.Tops rest := by
  have hnewest : m.world.newest xs.length = xs.reverse := by
    rw [World.newest, hs, List.take_left]
  have hinstall := minds_install (q := .object (keys.zip xs.reverse) none) h hs rfl
    (fun s hs => by
      simp only [Payload.slots, Option.toList_none, List.map_nil, List.append_nil, Table.values,
        List.mem_map] at hs
      obtain ⟨entry, hentry, rfl⟩ := hs
      exact List.mem_reverse.mp (List.of_mem_zip hentry).2) hpublic
  refine minds_congr ?_ hinstall
  let q : Payload := .object (keys.zip (m.world.newest keys.length)) none
  change Outcome.done () { m with world := (m.world.pop keys.length).install q } = _
  simp only [q]
  rw [← hn, hnewest]
  rfl

/-- The value of a property on top of those of the keys so far. -/
theorem minds_addProperty (h : m.Counts) {keys : List String} (hs : m.world.stack = s :: (xs ++ rest))
    (hn : xs.length = keys.length) (hpublic : ∀ r ∈ s :: xs, r.Public) (key : String) :
    Minds (addProperty keys key) m fun keys' m' => ∃ ys, m'.world.stack = ys ++ rest ∧
      ys.length = keys'.length ∧ ∀ r ∈ ys, r.Public := by
  unfold addProperty
  split
  · rename_i i hi
    have hlt : i < keys.length := (List.findIdx?_eq_some_iff_getElem.mp hi).1
    obtain ⟨front, old, back, hxs, hfront⟩ : ∃ front old back, xs = front ++ old :: back ∧
        front.length = keys.length - 1 - i := by
      refine ⟨xs.take (keys.length - 1 - i), xs[keys.length - 1 - i], xs.drop (keys.length - i), ?_, ?_⟩
      · rw [show keys.length - i = keys.length - 1 - i + 1 by omega, List.getElem_cons_drop,
          List.take_append_drop]
      · rw [List.length_take]
        omega
    have hcounts := h.moves (m.world.restacks_replaceBelow (keys.length - 1 - i))
      (m.world.keeps_replaceBelow (keys.length - 1 - i))
    refine (minds_change (Q := fun _ m' => m'.world.stack = (front ++ s :: back) ++ rest) hcounts ?_).bind
      fun _ m₁ _ h₁ hs₁ => minds_pure h₁ _ ⟨_, hs₁, ?_, fun r hr => hpublic r ?_⟩
    · rw [World.replaceBelow, hs, hxs]
      simp [← hfront]
    · rw [← hn, hxs]
      simp
    · rw [hxs]
      simp only [List.mem_append, List.mem_cons] at hr ⊢
      rcases hr with hr | hr | hr
      · exact .inr (.inl hr)
      · exact .inl hr
      · exact .inr (.inr (.inr hr))
  · exact minds_pure h _ ⟨s :: xs, hs, by simp [hn], hpublic⟩

end Act
end Enclave
