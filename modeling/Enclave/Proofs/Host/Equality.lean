import Enclave.Proofs.Host.Closures
import Enclave.Proofs.Host.Crossing
import Enclave.Script.Grammar.Operator

/-! # Equality on both sides

The host compares values, a script compares slots. A value that fits and the slot that stands for it, or a
slot without a zero in its text and its image, are equal to just the same others.
-/
namespace Enclave

open Act Text

/-- Text has no zero inside. -/
def Slot.IsPlain : Slot → Prop
  | .scalar (.string text) => Text.IsPlain text
  | _ => True

theorem Slot.cut_of_plain {s : Slot} (hs : s.IsPlain) : s.cut = s := by
  cases s with
  | scalar c =>
    cases c with
    | string text => exact congrArg (fun text => Slot.scalar (.string text)) (cut_eq_self hs)
    | null | number | bool => rfl
  | cell id => rfl

namespace World

variable {w : World} {v u : Value} {s t : Slot}

/-- Values that fit are equal when their slots are. One cell has one kind. -/
theorem beq_of_fits (hv : w.Fits v) (hu : w.Fits u) : v.beq u = v.slot.strictEq u.slot := by
  cases v with
  | scalar a => cases u <;> rfl
  | handle kind id =>
    cases u with
    | scalar b => rfl
    | handle kind' id' =>
      simp only [Value.beq, Value.slot, Slot.strictEq]
      by_cases hid : id = id'
      · subst hid
        have hkind : kind = kind' := Option.some.inj (Eq.trans (Eq.symm hv) hu)
        simp [hkind]
      · simp [hid]

/-- The images of two slots are equal when the slots are. -/
theorem beq_image (hs : w.Alive s) (ht : w.Alive t) (hs' : s.IsPlain) (ht' : t.IsPlain) :
    (w.image s).beq (w.image t) = s.strictEq t := by
  rw [beq_of_fits (fits_image hs) (fits_image ht), slot_image, slot_image, Slot.cut_of_plain hs',
    Slot.cut_of_plain ht']

/-- Every comparison between images comes out as the one between the slots. -/
theorem compare_images {slots : List Slot} (halive : ∀ s ∈ slots, w.Alive s)
    (hplain : ∀ s ∈ slots, s.IsPlain) :
    (slots.map w.image).map (fun a => (slots.map w.image).map a.beq) =
      slots.map fun s => slots.map s.strictEq := by
  simp only [List.map_map]
  apply List.map_congr_left
  intro s hs
  apply List.map_congr_left
  intro t ht
  exact beq_image (halive s hs) (halive t ht) (hplain s hs) (hplain t ht)

end World

namespace Act

variable {t : Limits} {keep : List Slot} {m m' m₀ : Machine} {v u : Value} {x y : String}
  {globals : Table Slot} {on : Surroundings} {s r : Slot}

/-! ## Two globals -/

/-- The host declares a value, by copy or by move. -/
def declaring (on : Surroundings) (base : Nat) (moves : Bool) (name : String) (v : Value) :
    Act (Except HostError Unit) :=
  if moves then perform on base (.declareMove name v) else perform on base (.declareCopy name v)

/-- Afterwards the slot of the value is that of the global, and the scope is as open as before. -/
theorem declaring_fits (hg : m.Good t keep) (hv : m.world.Fits v) (hx : Text.IsPlain x)
    (ht : m.world.scope? m.world.engine.scope = some globals)
    (hopen : m.world.canWrite (.scope m.world.engine.scope) = true) (moves : Bool)
    (patience depth : Nat) :
    ∃ m', declaring (m.calling patience depth) keep.length moves x v m = .done (.ok ()) m' ∧
      m'.Good t keep ∧ m.world.heap.Later m'.world.heap ∧ m'.world.engine = m.world.engine ∧
      m'.world.canWrite (.scope m.world.engine.scope) = true ∧
      m'.world.scope? m.world.engine.scope = some (globals.put x v.slot) := by
  have hin : ∀ w, World.Move t m.world w → m.world.Brings v.slot w →
      ∃ m', declareTop (m.calling patience depth) x v { m with world := w } = .done (.ok ()) m' ∧
        m.world.heap.Later m'.world.heap ∧ m'.world.engine = m.world.engine ∧
        m'.world.canWrite (.scope m.world.engine.scope) = true ∧
        m'.world.scope? m.world.engine.scope = some (globals.put x v.slot) := by
    rintro w hmove ⟨heap, stack, rfl⟩
    have hsound := hmove.sound hg.sound
    have halive : World.Alive { m.world with heap := heap, stack := v.slot :: stack } v.slot := by
      intro id hid
      apply World.isLive_of_stack hsound.counted
      rw [hid]
      exact List.mem_cons_self
    have hrun : declareTop (m.calling patience depth) x v
        { m with world := { m.world with heap := heap, stack := v.slot :: stack } } = _ :=
      declareTop_fits (m := { m with world := _ }) hsound.counted.proper
        (World.fits_later hmove.later hv halive) rfl hx ht hopen
    refine ⟨_, hrun, hmove.later.trans (Heap.later_releaseSlots _ _), rfl, hopen, ?_⟩
    change (m.world.setScope m.world.engine.scope _).scope? m.world.engine.scope = _
    rw [World.scope?_setScope ht, if_pos rfl]
  cases moves with
  | false =>
    obtain ⟨m', hrun, hrest⟩ := hin _ (World.move_share t m.world v.slot)
      (World.brings_share (World.alive_of_fits hv))
    have hperform : perform (m.calling patience depth) keep.length (.declareCopy x v) m =
      .done (.ok ()) m' := hrun
    exact ⟨m', hperform, good_perform hg hperform, hrest⟩
  | true =>
    obtain ⟨xs, hxs⟩ := hg.keeps
    obtain ⟨heap, stack, hsecure, -⟩ := World.secure_alive hxs.symm rfl (World.alive_of_fits hv)
    obtain ⟨m', hrun, hrest⟩ := hin _ (World.move_secureUnder t m.world keep.length 0 v.slot)
      ⟨heap, stack, hsecure⟩
    have hperform : perform (m.calling patience depth) keep.length (.declareMove x v) m =
      .done (.ok ()) m' := hrun
    exact ⟨m', hperform, good_perform hg hperform, hrest⟩

/-! ## The operators -/

/-- The marks with which a script asks whether two values are equal, each with the answer for values
that are. -/
def equalityMarks : List (String × Bool) :=
  [("===", true), ("==", true), ("!==", false), ("!=", false)]

/-- All four join their operands to a comparison. -/
theorem join_equalityMark {mark : String} {sense : Bool} (h : (mark, sense) ∈ equalityMarks) :
    ∃ op level, Script.markOperators.lookup mark = some (.plain level op) ∧
      ∀ (w : World) (l r : Slot), w.binary op l r = .bool (l.strictEq r == sense) := by
  have hequal : ∀ b : Bool, (b == true) = b := by decide
  have hunequal : ∀ b : Bool, (b == false) = !b := by decide
  simp only [equalityMarks, List.mem_cons, List.not_mem_nil, or_false, Prod.mk.injEq] at h
  rcases h with ⟨rfl, rfl⟩ | ⟨rfl, rfl⟩ | ⟨rfl, rfl⟩ | ⟨rfl, rfl⟩
  · exact ⟨.equal, 7, rfl, fun w l r => by rw [hequal]; rfl⟩
  · exact ⟨.equal, 7, rfl, fun w l r => by rw [hequal]; rfl⟩
  · exact ⟨.unequal, 7, rfl, fun w l r => by rw [hunequal]; rfl⟩
  · exact ⟨.unequal, 7, rfl, fun w l r => by rw [hunequal]; rfl⟩

/-- An operator on two globals leaves its value. -/
theorem turns_binaryGlobals {op : BinaryOp} {c : Scalar} (hp : m₀.world.heap.Proper)
    (hopen : m₀.world.canRead (.scope on.scope) = true)
    (hx : m₀.world.global? on.scope x = some s) (hs : m₀.world.Alive s)
    (hy : m₀.world.global? on.scope y = some r) (hr : m₀.world.Alive r)
    (hop : ∀ w : World, w.binary op s r = c) :
    Turns m₀ .none ((Expr.binary op (.name x) (.name y)).eval on) fun _ k =>
      k = ⟨[.scalar c], [], []⟩ := by
  have hloaded : Turns m₀ ⟨[s], [], []⟩ (loadGlobal on.scope y) fun _ k => k = ⟨[r, s], [], []⟩ :=
    turns_loadGlobal hopen hy hr
  refine (turns_loadGlobal hopen hx hs).step (hloaded.step ?_)
  intro m hm
  have hrun : applyBinary op m = (push (m.world.binary op s r) >>= fun _ => settle 2) m := by
    have hpeek : m.world.stack.getD 1 .null = s := by rw [hm.stack]; rfl
    have htop : m.world.top = r := World.top_of_stack hm.stack
    change (push (m.world.binary op (m.world.stack.getD 1 .null) m.world.top) >>= fun _ => settle 2) m = _
    rw [hpeek, htop]
  have hsettle : Turns m₀ ⟨.scalar c :: ([r, s] ++ []), [], []⟩ (settle 2) fun _ k =>
      k = ⟨[.scalar c], [], []⟩ := turns_settle hp 2 rfl
  have hturns : Turns m₀ ⟨[r, s], [], []⟩ (push c >>= fun _ => settle 2) fun _ k =>
      k = ⟨[.scalar c], [], []⟩ := (turns_push c).step hsettle
  rw [hop] at hrun
  obtain ⟨a, k, m', hdone, hk⟩ := hturns m hm
  exact ⟨a, k, m', hrun.trans hdone, hk⟩

end Act

section Agreement

variable {t : Limits} {keep : List Slot} {m : Machine}

theorem World.alive_of_global {w : World} {scope : ScopeId} {name : String} {s : Slot}
    (hc : w.heap.Counted w.outside) (h : w.global? scope name = some s) : w.Alive s := by
  rintro id hid
  cases s with
  | scalar c => cases hid
  | cell id' =>
    cases hid
    exact World.isLive_of_global hc h

/-- **Both sides agree on what is equal.** Whatever two values the host declares under two names, by copy
or by move, each under the kind that its cell has and with no zero in its text: a script that asks with one
of the four operators whether the two globals are equal, or unequal, gets the answer that the host gives.
And when a closure is called on slots without a zero in their text, its code sees values that compare among
themselves, and with the receiver, as those slots do. -/
theorem equality_agrees (hg : m.Good t keep) :
    (∀ v u x y globals moves moves' patience depth, m.world.Fits v → x ≠ y → IsPlain x → IsPlain y →
      m.world.scope? m.world.engine.scope = some globals →
      m.world.canWrite (.scope m.world.engine.scope) = true →
      ∃ m₁, declaring (m.calling patience depth) keep.length moves x v m = .done (.ok ()) m₁ ∧
        (m₁.world.Fits u →
          ∃ m₂, declaring (m₁.calling patience depth) keep.length moves' y u m₁ = .done (.ok ()) m₂ ∧
            ∀ on mark sense, on.scope = m.world.engine.scope → (mark, sense) ∈ equalityMarks →
              ∃ op m₃, Script.markOperators.lookup mark = some op ∧
                (op.join (.name x) (.name y)).eval on m₂ = .done () m₃ ∧
                m₂.Gains ⟨[.scalar (.bool (v.beq u == sense))], [], []⟩ m₃)) ∧
    ∀ id place b slots receiver patience depth, m.world.engine.running = true →
      m.world.engine.bindings[place]? = some b →
      m.world.visible? id = some (.function (.closure (some place))) →
      slots.length ≤ m.world.engine.config.maxArguments →
      (∀ s ∈ receiver.getD .null :: slots, m.world.Alive s ∧ s.IsPlain) →
      ∃ values this m₁,
        callSlot (callNative patience (depth + 1)) (.cell id) receiver slots m =
          (runCode (inside m.world patience depth) m.world.stack.length
              (b.body b.captured values this) >>= fun outcome =>
            conclude m.world.stack.length m.world.engine.config.errorMarker outcome >>=
              fun r => note (.returned r) >>= fun _ => adoptReturn r) m₁ ∧
        (this :: values).map (fun a => (this :: values).map a.beq) =
          (receiver.getD .null :: slots).map fun s => (receiver.getD .null :: slots).map s.strictEq := by
  constructor
  · intro v u x y globals moves moves' patience depth hv hxy hx hy ht hopen
    obtain ⟨m₁, hfirst, hg₁, hl₁, hengine₁, hopen₁, ht₁⟩ :=
      declaring_fits hg hv hx ht hopen moves patience depth
    refine ⟨m₁, hfirst, fun hu => ?_⟩
    rw [← hengine₁] at ht₁ hopen₁
    obtain ⟨m₂, hsecond, hg₂, -, hengine₂, hopen₂, ht₂⟩ :=
      declaring_fits hg₁ hu hy ht₁ hopen₁ moves' patience depth
    refine ⟨m₂, hsecond, fun on mark sense hscope hmark => ?_⟩
    rw [hengine₁, ← hscope] at ht₁ ht₂ hopen₂
    have hxv : m₁.world.global? on.scope x = some v.slot := by
      rw [World.global?, ht₁, Option.bind_some]
      exact Table.get?_put_self globals x v.slot
    have hxv₂ : m₂.world.global? on.scope x = some v.slot := by
      rw [World.global?, ht₂, Option.bind_some, Table.get?_put_of_ne _ _ hxy]
      exact Table.get?_put_self globals x v.slot
    have hyu₂ : m₂.world.global? on.scope y = some u.slot := by
      rw [World.global?, ht₂, Option.bind_some]
      exact Table.get?_put_self _ y u.slot
    have hv₁ : m₁.world.Fits v :=
      World.fits_later hl₁ hv (World.alive_of_global hg₁.sound.counted hxv)
    have hbeq := World.beq_of_fits hv₁ hu
    obtain ⟨op, level, hlookup, hop⟩ := join_equalityMark hmark
    have hcompared := turns_binaryGlobals hg₂.sound.counted.proper (World.canRead_of_canWrite hopen₂)
      hxv₂ (World.alive_of_global hg₂.sound.counted hxv₂) hyu₂
      (World.alive_of_global hg₂.sound.counted hyu₂) fun w => (hop w _ _).trans (by rw [← hbeq])
    obtain ⟨_, _, m₃, hrun, hgains, rfl⟩ := hcompared.run
    exact ⟨_, m₃, hlookup, hrun, hgains⟩
  · intro id place b slots receiver patience depth hrunning hbinding hv hn hslots
    have halive : ∀ s ∈ slots ++ receiver.toList, m.world.Alive s := by
      intro s hs
      apply And.left
      apply hslots
      rcases List.mem_append.mp hs with hs | hs
      · exact List.mem_cons_of_mem _ hs
      · rw [Option.mem_toList] at hs
        rw [hs]
        exact List.mem_cons_self
    obtain ⟨taken, m₁, -, hcall⟩ := callSlot_reads hg.sound.counted.proper hrunning hbinding hv patience
      depth halive hn
    refine ⟨_, _, m₁, hcall, ?_⟩
    have hthis : (receiver.map m.world.image).getD .null = m.world.image (receiver.getD .null) := by
      cases receiver <;> rfl
    rw [hthis, ← List.map_cons]
    exact World.compare_images (fun s hs => (hslots s hs).1) fun s hs => (hslots s hs).2

end Agreement

/-- The host declares a number that is not even equal to itself under two names, and a closure is called on
one array twice, with that number between. -/
theorem equality_agrees_notANumber :
    let w : World := (((World.initial .default).bind none [] Stock.echo).install
      (.function (.closure (some 0)))).install (.array #[])
    let m : Machine := ⟨w, []⟩
    let v : Value := .number Number.notANumber
    m.Good ⟨0, False, [], True⟩ [] ∧
    (∃ m₁ m₂ m₃, declaring (m.calling 1 1) 0 true "a" v m = .done (.ok ()) m₁ ∧
      declaring (m₁.calling 1 1) 0 false "b" v m₁ = .done (.ok ()) m₂ ∧
      (Expr.binary .equal (.name "a") (.name "b")).eval (m.calling 1 1) m₂ = .done () m₃ ∧
      m₂.Gains ⟨[.scalar (.bool false)], [], []⟩ m₃) ∧
    ∃ values this m₁,
      callSlot (callNative 1 2) (.cell 0) none [.cell 1, v.slot, .cell 1] m =
        (runCode (inside m.world 1 1) 2 (Stock.echo [] values this) >>= fun outcome =>
          conclude 2 m.world.engine.config.errorMarker outcome >>=
            fun r => note (.returned r) >>= fun _ => adoptReturn r) m₁ ∧
      (this :: values).map (fun a => (this :: values).map a.beq) =
        [[true, false, false, false], [false, true, false, true],
          [false, false, false, false], [false, true, false, true]] := by
  intro w m v
  have hmove : World.Move ⟨0, False, [], True⟩ (World.initial .default) w :=
    (World.move_bind _ _ none [] Stock.echo).trans
      ((World.move_installEmpty _ _ (.function (.closure (some 0))) rfl).trans
        (World.move_installEmpty _ _ (.array #[]) rfl))
  have hg : m.Good ⟨0, False, [], True⟩ [] :=
    (Machine.good_initial .default False True).move hmove List.nil_suffix
  obtain ⟨hdeclared, hcalled⟩ := equality_agrees hg
  constructor
  · exact hg
  constructor
  · obtain ⟨m₁, hfirst, hnext⟩ := hdeclared v v "a" "b" [] true false 1 1 trivial (by decide)
      (by decide) (by decide) rfl rfl
    obtain ⟨m₂, hsecond, hcompared⟩ := hnext trivial
    obtain ⟨op, m₃, hop, hrun, hgains⟩ :=
      hcompared (m.calling 1 1) "===" true rfl List.mem_cons_self
    have hbeq : (v.beq v == true) = false := by decide +kernel
    rw [hbeq] at hgains
    cases hop
    exact ⟨m₁, m₂, m₃, hfirst, hsecond, hrun, hgains⟩
  · have hslots : ∀ s ∈ (none : Option Slot).getD .null :: [.cell 1, v.slot, .cell 1],
        m.world.Alive s ∧ s.IsPlain := by
      have harray : m.world.Alive (.cell 1) := World.alive_of_visible (p := .array #[]) rfl
      intro s hs
      simp only [List.mem_cons, List.not_mem_nil, or_false] at hs
      rcases hs with rfl | rfl | rfl | rfl
      · exact ⟨World.alive_scalar _, trivial⟩
      · exact ⟨harray, trivial⟩
      · exact ⟨World.alive_scalar _, trivial⟩
      · exact ⟨harray, trivial⟩
    obtain ⟨values, this, m₁, hcall, hsame⟩ := hcalled 0 0 ⟨none, [], Stock.echo⟩
      [.cell 1, v.slot, .cell 1] none 1 1 rfl rfl rfl (by decide) hslots
    exact ⟨values, this, m₁, hcall, hsame.trans (by decide +kernel)⟩

end Enclave
