import Enclave.Proofs.Program.Minding

/-! # Evaluation keeps the counters in order

The evaluation of an expression that minds the counters leaves the machine in order, and a value in hand
that scripts may have. By induction on the tree: where evaluation comes to one part after others, the script
minds the counters there too.
-/
namespace Enclave

open Act Program

variable {t : Limits} {patience depth : Nat} {m m₁ m' : Machine} {rest : List Slot} {n : Nat}

namespace Machine

theorem Spreads.cons (h : m'.Spreads n m.world.stack) (htop : m.Tops rest) : m'.Spreads (n + 1) rest := by
  obtain ⟨xs, hxs, hn, hpublic⟩ := h
  obtain ⟨s, hs, hs'⟩ := htop
  refine ⟨xs ++ [s], ?_, ?_, fun r hr => ?_⟩
  · rw [hxs, hs, List.append_assoc]
    rfl
  · simp [hn]
  · rcases List.mem_append.mp hr with hr | hr
    · exact hpublic r hr
    · exact List.mem_singleton.mp hr ▸ hs'

theorem spreads_nil (m : Machine) : m.Spreads 0 m.world.stack :=
  ⟨[], rfl, rfl, fun _ hs => by cases hs⟩

/-- The place is at hand: what holds on to it is on top of the lower part `rest` of the stack. -/
def Places (rest : List Slot) (place : Location) (m : Machine) : Prop :=
  m.world.stack = place.held ++ rest ∧ ∀ s ∈ place.held, s.Public

end Machine

/-! ## Parts of expressions -/

section Parts

variable {callee : Expr} {args : Items}

/-- A member comes to hand, and its target with it. -/
theorem Act.minds_memberPlace (h : m.Counts) {s k : Slot} (hs : m.world.stack = k :: s :: rest)
    (hpublic : s.Public) (hk : k.Public) :
    Minds (do
      let target ← peek 1
      let key ← top
      pure (Location.member target key)) m (Machine.Places rest) := by
  apply minds_peek
  apply minds_top
  rw [World.top_of_stack hs, hs]
  refine minds_pure h _ ⟨hs, fun r hr => ?_⟩
  simp only [Location.held, List.mem_cons, List.not_mem_nil, or_false] at hr
  rcases hr with rfl | rfl
  · exact hk
  · exact hpublic

/-- Of the class a counter is made, of all else nothing. -/
theorem Expr.minds_construct (hg : m.Good t [])
    (hspares : (Site.expr (.construct callee args)).Spares (runs patience depth) m)
    (hcallee : Minds (callee.eval (runs patience depth)) m fun _ m' => m'.Tops m.world.stack)
    (hargs : ∀ m₁ : Machine, callee.eval (runs patience depth) m = .done () m₁ → m₁.Counts →
      m₁.Good t [] → Minds (args.evalArgs (runs patience depth)) m₁ fun _ m' =>
        m'.Spreads args.length m₁.world.stack) :
    Minds ((Expr.construct callee args).eval (runs patience depth)) m fun _ m' =>
      m'.Tops m.world.stack := by
  have hc := safe_runs t patience depth
  rw [Expr.eval]
  apply hcallee.after (callee.shifts_eval hc) hg
  rintro _ m₁ hrun h₁ hg₁ htops
  apply minds_top
  apply (hargs m₁ hrun h₁ hg₁).after (args.shifts_evalArgs hc) hg₁
  rintro _ m₂ - h₂ hg₂ ⟨xs, hs₂, hn, -⟩
  apply minds_newest
  by_cases hclass : m₁.world.top = .cell classCell
  · have hfew := hspares m₁ hrun hclass
    rw [htops.stack, hclass] at hs₂
    rw [hclass, ← hn]
    obtain ⟨m₃, hmake, hupdates, hs₃⟩ := h₂.construct_makes hg₂ patience depth hs₂ (hn ▸ hfew)
    exact minds_done hmake hupdates.counts ⟨_, hs₃, Slot.public_cell (.inr h₂.room)⟩
  · apply (Act.minds_construct (Q := fun _ _ => False) h₂ hg₂.sound.counted.proper hclass _).bind
    intro _ _ _ _ hfalse
    exact hfalse.elim

/-- A value goes into a place that may be written. -/
theorem Expr.minds_assign {tg : Target} {op : AssignOp} {value : Expr} (hg : m.Good t [])
    (hs : (Site.expr (.assign tg op value)).Minds (runs patience depth) m)
    (htarget : Minds (tg.eval (runs patience depth)) m (Machine.Places m.world.stack))
    (hvalue : ∀ place (m₁ : Machine), tg.eval (runs patience depth) m = .done place m₁ → m₁.Counts →
      m₁.Good t [] → Minds (value.eval (runs patience depth)) m₁ fun _ m' => m'.Tops m₁.world.stack) :
    Minds ((Expr.assign tg op value).eval (runs patience depth)) m fun _ m' =>
      m'.Tops m.world.stack := by
  have hc := safe_runs t patience depth
  rw [Expr.eval]
  apply htarget.after (tg.shifts_eval hc) hg
  rintro place m₁ hplace h₁ hg₁ ⟨hs₁, hpublic⟩
  apply (hvalue place m₁ hplace h₁ hg₁).after (value.shifts_eval hc) hg₁
  rintro _ m₂ hrun h₂ hg₂ ⟨s, hs₂, hs'⟩
  have hspared : place.Spared m₂ := (hs.comes (.assignApply tg op value hplace hrun)).spares
  rw [hs₁] at hs₂
  exact minds_assignTo h₂ hpublic hspared hg₂ op hs₂ hs'

/-- A property gets a value, and the others come after it. -/
theorem Act.minds_entry {x : Act Unit} {keys : List String} {name : String}
    {f : List String → Act (List String)} {R : List String → Machine → Prop} (hg : m.Good t [])
    (hspreads : m.Spreads keys.length rest) (hx : Minds x m fun _ m' => m'.Tops m.world.stack)
    (hshifts : Shifts t True 0 x fun _ => 1)
    (hf : ∀ keys' m₁ m₂, x m = .done () m₁ → addProperty keys name m₁ = .done keys' m₂ → m₂.Counts →
      m₂.Good t [] → m₂.Spreads keys'.length rest → Minds (f keys') m₂ R) :
    Minds (x >>= fun _ => addProperty keys name >>= f) m R := by
  apply hx.after hshifts hg
  rintro _ m₁ hrun h₁ hg₁ ⟨s, hs₁, hs'⟩
  obtain ⟨xs, hs, hn, hall⟩ := hspreads
  rw [hs] at hs₁
  have hpublic : ∀ r ∈ s :: xs, r.Public := by
    rintro r (_ | ⟨_, hr⟩)
    · exact hs'
    · exact hall r hr
  have hover : Over (keys.length + 1) [] m₁.world.stack := by
    refine ⟨List.nil_suffix, ?_⟩
    rw [hs₁]
    simp [hn]
  apply (minds_addProperty h₁ hs₁ hn hpublic name).afterSpec (shifts_addProperty keys name []) hg₁ hover
  intro keys' m₂ hadd h₂ hg₂ _ hspreads₂
  exact hf keys' m₁ m₂ hrun hadd h₂ hg₂ hspreads₂

end Parts

/-! ## Expressions -/

mutual

theorem Expr.minds_eval : ∀ (e : Expr) {m : Machine}, (Site.expr e).Minds (runs patience depth) m →
    m.Counts → m.Good t [] →
    Minds (e.eval (runs patience depth)) m fun _ m' => m'.Tops m.world.stack
  | .null, m, hs, h, hg | .bool _, m, hs, h, hg | .number _, m, hs, h, hg | .string _, m, hs, h, hg => by
    rw [Expr.eval]
    exact (minds_push h _).tops
  | .name x, m, hs, h, hg => by
    rw [Expr.eval]
    exact (minds_loadGlobal h x).tops
  | .paren e, m, hs, h, hg => by
    rw [Expr.eval]
    exact e.minds_eval (hs.comes (.paren e m)) h hg
  | .array elements, m, hs, h, hg => by
    rw [Expr.eval]
    apply (elements.minds_evalElements (hs.comes (.array elements m)) h hg).bind
    rintro _ m₁ - h₁ ⟨xs, hs₁, hn, hpublic⟩
    rw [← hn]
    exact minds_allocArray h₁ hs₁ hpublic
  | .object properties, m, hs, h, hg => by
    rw [Expr.eval]
    apply (properties.minds_eval [] (hs.comes (.object properties m)) h hg m.spreads_nil).bind
    rintro keys m₁ - h₁ ⟨xs, hs₁, hn, hpublic⟩
    exact minds_allocObject h₁ hs₁ hn hpublic
  | .member target key, m, hs, h, hg => by
    have hc := safe_runs t patience depth
    rw [eval_member]
    apply (target.minds_eval (hs.comes (.memberTarget target key m)) h hg).after
      (target.shifts_eval hc) hg
    rintro _ m₁ htarget h₁ hg₁ ⟨s, hs₁, hs'⟩
    apply (key.minds_eval (hs.comes (.memberKey target key htarget)) h₁ hg₁).bind
    rintro _ m₂ hkey h₂ ⟨k, hs₂, -⟩
    rw [hs₁] at hs₂
    apply minds_readMember h₂ hs₂ hs'
    intro id hid hcounter
    have hname := hs.spares id m₁ m₂ htarget hkey (hid ▸ World.top_of_stack hs₁) hcounter
    rwa [World.top_of_stack hs₂] at hname
  | .call callee args, m, hs, h, hg => by
    have hc := safe_runs t patience depth
    have hargs := @Items.minds_evalArgs args
    have hcallee := @Expr.minds_eval callee
    cases callee with
    | member target key =>
      rw [Expr.eval_callMember]
      apply (hargs (hs.comes (.methodArgs target key args m)) h hg).after (args.shifts_evalArgs hc) hg
      rintro _ m₁ hitems h₁ hg₁ ⟨xs, hs₁, hn, -⟩
      have hgiven : m₁.world.newest args.length = xs.reverse := by
        rw [World.newest, hs₁, ← hn, List.take_left]
      apply minds_newest
      rw [hgiven, ← hn]
      apply (target.minds_eval (hs.comes (.methodTarget target key args hitems)) h₁ hg₁).after
        (target.shifts_eval hc) hg₁
      rintro _ m₂ htarget h₂ hg₂ ⟨receiver, hs₂, hreceiver⟩
      apply (key.minds_eval (hs.comes (.methodKey target key args hitems htarget)) h₂ hg₂).after
        (key.shifts_eval hc) hg₂
      rintro _ m₃ hkey h₃ hg₃ ⟨k, hs₃, -⟩
      rw [hs₂, hs₁] at hs₃
      apply minds_callMember hg₃ h₃ hs₃ hreceiver
      intro id hid hcounter
      obtain ⟨hname, hnone⟩ := hs.spares id m₁ m₂ m₃ hitems htarget hkey
        (hid ▸ World.top_of_stack hs₂) hcounter
      rw [World.top_of_stack hs₃] at hname
      exact ⟨hname, List.length_eq_zero_iff.mp (hn.trans (hnone ▸ rfl))⟩
    | _ =>
      exact minds_plainCall hg (by simp) (hargs (hs.comes (.callArgs _ args m (by simp))) h hg)
        fun m₁ hitems => hcallee (hs.comes (.callCallee _ args (by simp) hitems))
  | .specialCall, m, hs, h, hg | .other, m, hs, h, hg => by
    rw [Expr.eval]
    exact minds_raise _
  | .construct callee args, m, hs, h, hg =>
    Expr.minds_construct hg hs.spares
      (callee.minds_eval (hs.comes (.constructCallee callee args m)) h hg)
      fun m₁ hrun => args.minds_evalArgs (hs.comes (.constructArgs callee args hrun))
  | .assign target op value, m, hs, h, hg =>
    Expr.minds_assign hg hs (target.minds_eval (hs.comes (.assignTarget target op value m)) h hg)
      fun place m₁ hplace => value.minds_eval (hs.comes (.assignValue target op value hplace))
  | .update grows returnsNew arg, m, hs, h, hg => by
    have hc := safe_runs t patience depth
    rw [Expr.eval]
    apply (arg.minds_evalPlace (hs.comes (.update grows returnsNew arg m)) h hg).after
      (arg.shifts_evalPlace hc) hg
    rintro place m₁ hplace h₁ hg₁ ⟨hs₁, hpublic⟩
    exact minds_updateAt h₁ hpublic (hs.spares place m₁ hplace) hg₁ hs₁ grows returnsNew
  | .unary op arg, m, hs, h, hg => by
    rw [Expr.eval]
    apply (arg.minds_eval (hs.comes (.unaryArg op arg m)) h hg).bind
    rintro _ m₁ - h₁ ⟨s, hs₁, -⟩
    exact minds_applyUnary h₁ hs₁ op
  | .binary op left right, m, hs, h, hg => by
    have hc := safe_runs t patience depth
    rw [Expr.eval]
    apply (left.minds_eval (hs.comes (.binaryLeft op left right m)) h hg).after
      (left.shifts_eval hc) hg
    rintro _ m₁ hleft h₁ hg₁ ⟨l, hs₁, -⟩
    apply (right.minds_eval (hs.comes (.binaryRight op left right hleft)) h₁ hg₁).bind
    rintro _ m₂ - h₂ ⟨r, hs₂, -⟩
    rw [hs₁] at hs₂
    exact minds_applyBinary h₂ hs₂ op
  | .logical op left right, m, hs, h, hg => by
    have hc := safe_runs t patience depth
    rw [Expr.eval]
    apply (left.minds_eval (hs.comes (.logicalLeft op left right m)) h hg).after
      (left.shifts_eval hc) hg
    intro _ m₁ hleft h₁ hg₁ htops
    apply minds_top
    split
    · rename_i hgo
      have hright := hs.comes (.logicalRight op left right hleft (beq_iff_eq.mp hgo))
      apply (right.minds_eval hright h₁ hg₁).bind
      rintro _ m₂ - h₂ ⟨r, hs₂, hr⟩
      rw [htops.stack] at hs₂
      exact minds_settle h₂ [m₁.world.top] hs₂ rfl hr
    · exact minds_pure h₁ _ htops

theorem Items.minds_evalElements : ∀ (items : Items) {m : Machine},
    (Site.elements items).Minds (runs patience depth) m → m.Counts → m.Good t [] →
    Minds (items.evalElements (runs patience depth)) m fun _ m' =>
      m'.Spreads items.length m.world.stack
  | .nil, m, hs, h, hg => by
    rw [Items.evalElements]
    exact minds_pure h _ m.spreads_nil
  | .item e rest, m, hs, h, hg => by
    have hc := safe_runs t patience depth
    rw [Items.evalElements]
    apply (e.minds_eval (hs.comes (.element e rest m)) h hg).after (e.shifts_eval hc) hg
    intro _ m₁ hrun h₁ hg₁ htops
    exact (rest.minds_evalElements (hs.comes (.afterElement e rest hrun)) h₁ hg₁).weaken
      fun _ _ hspreads => hspreads.cons htops
  | .hole rest, m, hs, h, hg => by
    rw [Items.evalElements]
    apply (minds_push h _).after (shifts_push _) hg
    intro _ m₁ hrun h₁ hg₁ hhands
    exact (rest.minds_evalElements (hs.comes (.afterHole rest hrun)) h₁ hg₁).weaken
      fun _ _ hspreads => hspreads.cons hhands.tops
  | .spread _, m, hs, h, hg => by
    rw [Items.evalElements]
    exact minds_raise _

theorem Items.minds_evalArgs : ∀ (items : Items) {m : Machine},
    (Site.args items).Minds (runs patience depth) m → m.Counts → m.Good t [] →
    Minds (items.evalArgs (runs patience depth)) m fun _ m' => m'.Spreads items.length m.world.stack
  | .nil, m, hs, h, hg => by
    rw [Items.evalArgs]
    exact minds_pure h _ m.spreads_nil
  | .item e rest, m, hs, h, hg => by
    have hc := safe_runs t patience depth
    rw [Items.evalArgs]
    apply (e.minds_eval (hs.comes (.arg e rest m)) h hg).after (e.shifts_eval hc) hg
    intro _ m₁ hrun h₁ hg₁ htops
    exact (rest.minds_evalArgs (hs.comes (.afterArg e rest hrun)) h₁ hg₁).weaken
      fun _ _ hspreads => hspreads.cons htops
  | .hole rest, m, hs, h, hg => by
    rw [Items.evalArgs]
    apply (minds_push h _).after (shifts_push _) hg
    intro _ m₁ hrun h₁ hg₁ hhands
    exact (rest.minds_evalArgs (hs.comes (.afterArgHole rest hrun)) h₁ hg₁).weaken
      fun _ _ hspreads => hspreads.cons hhands.tops
  | .spread _, m, hs, h, hg => by
    rw [Items.evalArgs]
    exact minds_raise _

theorem Properties.minds_eval : ∀ (properties : Properties) (keys : List String) {m : Machine}
    {rest : List Slot}, (Site.properties properties keys).Minds (runs patience depth) m → m.Counts →
    m.Good t [] → m.Spreads keys.length rest →
    Minds (properties.eval (runs patience depth) keys) m fun keys' m' => m'.Spreads keys'.length rest
  | .nil, keys, m, rest, hs, h, hg, hspreads => by
    rw [Properties.eval]
    exact minds_pure h _ hspreads
  | .keyed key value others, keys, m, rest, hs, h, hg, hspreads => by
    have hc := safe_runs t patience depth
    rw [Properties.eval]
    split
    · exact minds_raise _
    · rename_i name hname
      have hvalue := value.minds_eval (hs.comes (.property key value others keys m hname)) h hg
      apply minds_entry hg hspreads hvalue (value.shifts_eval hc)
      intro keys' m₁ m₂ hrun hadd h₂ hg₂ hspreads₂
      exact others.minds_eval keys' (hs.comes (.afterProperty key value others keys hname hrun hadd))
        h₂ hg₂ hspreads₂
  | .shorthand name others, keys, m, rest, hs, h, hg, hspreads => by
    rw [Properties.eval]
    apply minds_entry hg hspreads (minds_loadGlobal h name).tops (shifts_loadGlobal 0 name)
    intro keys' m₁ m₂ hrun hadd h₂ hg₂ hspreads₂
    exact others.minds_eval keys' (hs.comes (.afterShorthand name others keys hrun hadd)) h₂ hg₂
      hspreads₂
  | .spread _, keys, m, rest, hs, h, hg, hspreads | .other _, keys, m, rest, hs, h, hg, hspreads => by
    rw [Properties.eval]
    exact minds_raise _

theorem MemberKey.minds_eval : ∀ (key : MemberKey) {m : Machine},
    (Site.key key).Minds (runs patience depth) m → m.Counts → m.Good t [] →
    Minds (key.eval (runs patience depth)) m fun _ m' => m'.Tops m.world.stack
  | .name s, m, hs, h, hg => by
    rw [MemberKey.eval]
    exact (minds_push h _).tops
  | .computed e, m, hs, h, hg => by
    rw [MemberKey.eval]
    exact e.minds_eval (hs.comes (.computedKey e m)) h hg
  | .hidden, m, hs, h, hg => by
    rw [MemberKey.eval]
    exact minds_raise _

theorem Target.minds_eval : ∀ (target : Target) {m : Machine},
    (Site.target target).Minds (runs patience depth) m → m.Counts → m.Good t [] →
    Minds (target.eval (runs patience depth)) m (Machine.Places m.world.stack)
  | .name x, m, hs, h, hg => by
    rw [Target.eval]
    exact minds_pure h _ ⟨rfl, fun s hs => by cases hs⟩
  | .member target key, m, hs, h, hg => by
    have hc := safe_runs t patience depth
    rw [Target.eval]
    apply (target.minds_eval (hs.comes (.targetOf target key m)) h hg).after (target.shifts_eval hc) hg
    rintro _ m₁ htarget h₁ hg₁ ⟨s, hs₁, hs'⟩
    apply (key.minds_eval (hs.comes (.targetKey target key htarget)) h₁ hg₁).bind
    rintro _ m₂ - h₂ ⟨k, hs₂, hk⟩
    rw [hs₁] at hs₂
    exact minds_memberPlace h₂ hs₂ hs' hk
  | .other, m, hs, h, hg => by
    rw [Target.eval]
    exact minds_raise _

theorem Expr.minds_evalPlace : ∀ (e : Expr) {m : Machine},
    (Site.place e).Minds (runs patience depth) m → m.Counts → m.Good t [] →
    Minds (e.evalPlace (runs patience depth)) m (Machine.Places m.world.stack)
  | .name x, m, hs, h, hg => by
    rw [Expr.evalPlace]
    exact minds_pure h _ ⟨rfl, fun s hs => by cases hs⟩
  | .member target key, m, hs, h, hg => by
    have hc := safe_runs t patience depth
    rw [Expr.evalPlace]
    apply (target.minds_eval (hs.comes (.placeOf target key m)) h hg).after (target.shifts_eval hc) hg
    rintro _ m₁ htarget h₁ hg₁ ⟨s, hs₁, hs'⟩
    apply (key.minds_eval (hs.comes (.placeKey target key htarget)) h₁ hg₁).bind
    rintro _ m₂ - h₂ ⟨k, hs₂, hk⟩
    rw [hs₁] at hs₂
    exact minds_memberPlace h₂ hs₂ hs' hk
  | .paren e, m, hs, h, hg => by
    rw [Expr.evalPlace]
    exact e.minds_evalPlace (hs.comes (.placeParen e m)) h hg
  | .null, m, _, _, _ | .bool _, m, _, _, _ | .number _, m, _, _, _ | .string _, m, _, _, _
  | .array _, m, _, _, _ | .object _, m, _, _, _ | .call _ _, m, _, _, _ | .specialCall, m, _, _, _
  | .construct _ _, m, _, _, _ | .assign _ _ _, m, _, _, _ | .update _ _ _, m, _, _, _
  | .unary _ _, m, _, _, _ | .binary _ _ _, m, _, _, _ | .logical _ _ _, m, _, _, _
  | .other, m, _, _, _ => by
    simp only [Expr.evalPlace]
    exact minds_raise _

end

/-! ## Statements -/

/-- A global that is declared gets a value. -/
theorem Act.minds_initial {x : Act Unit} {name : String} {f : Unit → Act Unit}
    {R : Unit → Machine → Prop} (hg : m.Good t []) (hname : name ≠ className)
    (hx : Minds x m fun _ m' => m'.Tops m.world.stack) (hshifts : Shifts t True 0 x fun _ => 1)
    (hf : ∀ m₁ m₂, x m = .done () m₁ → declare 0 name m₁ = .done () m₂ → m₂.Counts → m₂.Good t [] →
      Minds (f ()) m₂ R) :
    Minds (x >>= fun _ => declare 0 name >>= f) m R := by
  apply hx.after hshifts hg
  rintro _ m₁ hrun h₁ hg₁ ⟨s, hs₁, hs'⟩
  have hover : Over 1 [] m₁.world.stack := by
    rw [hs₁]
    exact ⟨List.nil_suffix, by simp⟩
  apply (minds_declare h₁ hs₁ hname hs').afterSpec (shifts_declare 0 name []) hg₁ hover
  intro _ m₂ hdeclare h₂ hg₂ _ _
  exact hf m₁ m₂ hrun hdeclare h₂ hg₂

theorem Declarators.minds_exec (declarators : Declarators)
    (hs : (Site.declarators declarators).Minds (runs patience depth) m) (h : m.Counts)
    (hg : m.Good t []) : Minds (declarators.exec (runs patience depth)) m fun _ _ => True := by
  induction declarators generalizing m with
  | nil =>
    rw [Declarators.exec]
    exact minds_pure h _ trivial
  | name x init rest ih =>
    have hx : x ≠ className := hs.spares
    cases init with
    | some e =>
      have hvalue := e.minds_eval (hs.comes (.initial x e rest m)) h hg
      rw [Declarators.exec]
      apply minds_initial hg hx hvalue (e.shifts_eval (safe_runs t patience depth))
      intro m₁ m₂ hrun hdeclare
      exact ih (hs.comes (.afterInitial x e rest hrun hdeclare))
    | none =>
      rw [Declarators.exec]
      apply minds_initial hg hx (minds_push h _).tops (shifts_push _)
      intro m₁ m₂ hrun hdeclare
      exact ih (hs.comes (.afterName x rest hrun hdeclare))
  | pattern rest _ =>
    rw [Declarators.exec]
    exact minds_raise _

theorem Expr.minds_test (e : Expr) (hs : (Site.test e).Minds (runs patience depth) m) (h : m.Counts)
    (hg : m.Good t []) : Minds (e.test (runs patience depth)) m fun _ _ => True := by
  apply (e.minds_eval (hs.comes (.tested e m)) h hg).bind
  rintro _ m₁ - h₁ ⟨s, hs₁, -⟩
  apply minds_top
  apply (minds_drop h₁ hs₁).bind
  intro _ m₂ _ h₂ _
  exact minds_pure h₂ _ trivial

/-- A test leaves the stack as it was. -/
theorem Expr.spec_test (e : Expr) : Spec t True [] (Over 1 []) (e.test (runs patience depth)) fun _ =>
    Over 1 [] :=
  (e.shifts_test (safe_runs t patience depth)).last (Nat.zero_le _) (by simp)

/-- The rounds of a loop. -/
theorem Act.minds_rounds {test : Expr} {body : Statement} (rounds : Nat)
    (hs : (Site.rounds test body rounds).Minds (runs patience depth) m)
    (hbody : ∀ m₁ : Machine, (Site.statement body).Minds (runs patience depth) m₁ → m₁.Counts →
      m₁.Good t [] → Over 1 [] m₁.world.stack →
      Minds (body.exec (runs patience depth)) m₁ fun _ _ => True)
    (h : m.Counts) (hg : m.Good t []) (hover : Over 1 [] m.world.stack) :
    Minds (repeatWhile (test.test (runs patience depth)) (body.exec (runs patience depth)) rounds) m
      fun _ _ => True := by
  induction rounds generalizing m with
  | zero =>
    intro _ _ hrun
    cases hrun
  | succ rounds ih =>
    rw [repeatWhile_succ]
    apply (test.minds_test (hs.comes (.roundTest test body rounds m)) h hg).afterSpec test.spec_test hg
      hover
    intro go m₁ hgo h₁ hg₁ hover₁ _
    cases go with
    | false => exact minds_pure h₁ _ trivial
    | true =>
      have hshifts := body.shifts_exec (safe_runs t patience depth)
      apply (hbody m₁ (hs.comes (.roundBody test body rounds hgo)) h₁ hg₁ hover₁).afterSpec
        (hshifts []) hg₁ hover₁
      intro _ m₂ hrun h₂ hg₂ hover₂ _
      exact ih (hs.comes (.nextRound test body rounds hgo hrun)) h₂ hg₂ hover₂

mutual

theorem Statement.minds_exec : ∀ (s : Statement) {m : Machine},
    (Site.statement s).Minds (runs patience depth) m → m.Counts → m.Good t [] →
    Over 1 [] m.world.stack → Minds (s.exec (runs patience depth)) m fun _ _ => True
  | .expression e, m, hs, h, hg, hover => by
    rw [Statement.exec]
    apply (e.minds_eval (hs.comes (.expression e m)) h hg).bind
    intro _ m₁ _ h₁ _
    exact minds_change (h₁.moves (World.restacks_settle _ 1) (World.keeps_settle _ 1)) trivial
  | .declare declarators, m, hs, h, hg, hover => by
    rw [Statement.exec]
    exact declarators.minds_exec (hs.comes (.declaration declarators m)) h hg
  | .block body, m, hs, h, hg, hover => by
    rw [Statement.exec]
    exact body.minds_exec (hs.comes (.block body m)) h hg hover
  | .branch test yes, m, hs, h, hg, hover => by
    rw [Statement.exec]
    apply (test.minds_test (hs.comes (.branchTest test yes m)) h hg).afterSpec test.spec_test hg hover
    intro go m₁ hgo h₁ hg₁ hover₁ _
    cases go with
    | true => exact yes.minds_exec (hs.comes (.branchYes test yes hgo)) h₁ hg₁ hover₁
    | false => exact minds_pure h₁ _ trivial
  | .choice test yes no, m, hs, h, hg, hover => by
    rw [Statement.exec]
    apply (test.minds_test (hs.comes (.choiceTest test yes no m)) h hg).afterSpec test.spec_test hg
      hover
    intro go m₁ hgo h₁ hg₁ hover₁ _
    cases go with
    | true => exact yes.minds_exec (hs.comes (.choiceYes test yes no hgo)) h₁ hg₁ hover₁
    | false => exact no.minds_exec (hs.comes (.choiceNo test yes no hgo)) h₁ hg₁ hover₁
  | .loop test body, m, hs, h, hg, hover => by
    rw [Statement.exec]
    exact minds_rounds _ (hs.comes (.loop test body m)) (fun m₁ => body.minds_exec) h hg hover
  | .empty, m, hs, h, hg, hover => by
    rw [Statement.exec]
    exact minds_pure h _ trivial
  | .other, m, hs, h, hg, hover => by
    rw [Statement.exec]
    exact minds_raise _

theorem Statements.minds_exec : ∀ (body : Statements) {m : Machine},
    (Site.statements body).Minds (runs patience depth) m → m.Counts → m.Good t [] →
    Over 1 [] m.world.stack → Minds (body.exec (runs patience depth)) m fun _ _ => True
  | .nil, m, hs, h, hg, hover => by
    rw [Statements.exec]
    exact minds_pure h _ trivial
  | .cons s rest, m, hs, h, hg, hover => by
    have hshifts := s.shifts_exec (safe_runs t patience depth)
    rw [Statements.exec]
    apply (s.minds_exec (hs.comes (.first s rest m)) h hg hover).afterSpec (hshifts []) hg hover
    intro _ m₁ hrun h₁ hg₁ hover₁ _
    exact rest.minds_exec (hs.comes (.next s rest hrun)) h₁ hg₁ hover₁

end

end Enclave
