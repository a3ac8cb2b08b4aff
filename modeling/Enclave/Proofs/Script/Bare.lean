import Enclave.Proofs.Script.Allowed

/-! # Scripts in bare worlds

By induction on the tree, evaluation in a bare world goes by the steps that are allowed. Only a script
that assigns to a member with a plain equals sign needs more than scalars there, and only declarators
need names: those of the declarators that are reached and whose initialiser comes to its end.
-/
namespace Enclave

open Act

/-! ## Plain assignments to members -/

def Target.isMember : Target → Bool
  | member _ _ => true
  | name _ | other => false

mutual

/-- Is there a plain assignment to a member in the expression? -/
def Expr.setsMember : Expr → Bool
  | .null | .bool _ | .number _ | .string _ | .name _ | .specialCall | .other => false
  | .paren e => e.setsMember
  | .array elements => elements.setsMember
  | .object properties => properties.setsMember
  | .member target key => target.setsMember || key.setsMember
  | .call callee args => callee.setsMember || args.setsMember
  | .construct callee args => callee.setsMember || args.setsMember
  | .assign target op value =>
    op == .set && target.isMember || target.setsMember || value.setsMember
  | .update _ _ arg => arg.setsMember
  | .unary _ arg => arg.setsMember
  | .binary _ left right => left.setsMember || right.setsMember
  | .logical _ left right => left.setsMember || right.setsMember

def Items.setsMember : Items → Bool
  | .nil => false
  | .item e rest => e.setsMember || rest.setsMember
  | .hole rest | .spread rest => rest.setsMember

def Properties.setsMember : Properties → Bool
  | .nil => false
  | .keyed _ value rest => value.setsMember || rest.setsMember
  | .shorthand _ rest | .spread rest | .other rest => rest.setsMember

def MemberKey.setsMember : MemberKey → Bool
  | .name _ | .hidden => false
  | .computed e => e.setsMember

def Target.setsMember : Target → Bool
  | .name _ | .other => false
  | .member target key => target.setsMember || key.setsMember

end

def Declarators.setsMember : Declarators → Bool
  | nil => false
  | name _ init rest => init.any Expr.setsMember || rest.setsMember
  | pattern rest => rest.setsMember

mutual

def Statement.setsMember : Statement → Bool
  | .expression e => e.setsMember
  | .declare declarators => declarators.setsMember
  | .block body => body.setsMember
  | .branch test yes => test.setsMember || yes.setsMember
  | .choice test yes no => test.setsMember || yes.setsMember || no.setsMember
  | .loop test body => test.setsMember || body.setsMember
  | .empty | .other => false

def Statements.setsMember : Statements → Bool
  | .nil => false
  | .cons s rest => s.setsMember || rest.setsMember

end

/-! ## Expressions -/

variable {on : Surroundings} {names : String → Prop} {members : Prop}

/-- Only a target that is a member gives a place that is one. -/
theorem Target.isMember_of_eval (target : Target) {place : Location} {m m' : Machine}
    (h : target.eval on m = .done place m') (hp : place.isMember = true) :
    target.isMember = true := by
  cases target with
  | name x =>
    rw [Target.eval] at h
    cases h
    cases hp
  | member => rfl
  | other =>
    rw [Target.eval] at h
    cases h

mutual

theorem Expr.stays_eval :
    ∀ e : Expr, (e.setsMember = true → members) → Stays ⟨on.scope, names, members⟩ (e.eval on)
  | .null, _ | .bool _, _ | .number _, _ | .string _, _ => by
    rw [Expr.eval]
    exact stays_push _
  | .name x, _ => by
    rw [Expr.eval]
    exact stays_loadGlobal x
  | .paren e, h => by
    rw [Expr.eval]
    exact e.stays_eval fun he => h (by simp [Expr.setsMember, he])
  | .array elements, h => by
    rw [Expr.eval]
    have helements := elements.stays_evalElements fun he => h (by simp [Expr.setsMember, he])
    exact helements.bind fun _ => stays_change fun w => World.leads_allocArray _ w _
  | .object properties, h => by
    rw [Expr.eval]
    have hproperties := properties.stays_eval (fun he => h (by simp [Expr.setsMember, he])) []
    exact hproperties.bind fun keys => stays_change fun w => World.leads_allocObject _ w keys
  | .member target key, h => by
    rw [Expr.eval]
    refine (target.stays_eval fun he => h (by simp [Expr.setsMember, he])).bind fun _ => ?_
    refine (key.stays_eval fun he => h (by simp [Expr.setsMember, he])).bind fun _ => ?_
    refine stays_peek 1 fun t => stays_top fun k => (stays_getMember t k).bind fun _ => ?_
    exact stays_settle 2
  | .call callee args, h => by
    have hargs := args.stays_evalArgs fun he => h (by simp [Expr.setsMember, he])
    have hcallee := callee.stays_eval fun he => h (by simp [Expr.setsMember, he])
    cases callee with
    | member target key =>
      rw [Expr.eval]
      refine hargs.bind fun _ => stays_newest _ fun given => ?_
      refine (target.stays_eval fun he => h (by simp [Expr.setsMember, he])).bind fun _ => ?_
      refine (key.stays_eval fun he => h (by simp [Expr.setsMember, he])).bind fun _ => ?_
      refine stays_peek 1 fun t => stays_top fun k => (stays_getMember t k).bind fun _ => ?_
      refine stays_top fun method m hb => ?_
      exact staysAt_raised ((bind_done (nativeOf_bare hb method)).trans rfl) hb
    | _ =>
      rw [Expr.eval]
      · refine hargs.bind fun _ => stays_newest _ fun given => hcallee.bind fun _ => ?_
        refine stays_top fun f => (stays_callSlot _ f none given).bind fun _ => ?_
        exact stays_settle _
      · simp
  | .specialCall, _ | .other, _ => by
    rw [Expr.eval]
    exact stays_raise _
  | .construct callee args, h => by
    rw [Expr.eval]
    refine (callee.stays_eval fun he => h (by simp [Expr.setsMember, he])).bind fun _ => ?_
    refine stays_top fun c => ?_
    refine (args.stays_evalArgs fun he => h (by simp [Expr.setsMember, he])).bind fun _ => ?_
    refine stays_newest _ fun given => (stays_construct _ c given).bind fun _ => ?_
    exact stays_settle _
  | .assign target op value, h => by
    rw [Expr.eval]
    have hvalue := value.stays_eval fun he => h (by simp [Expr.setsMember, he])
    have htarget := target.stays_eval fun he => h (by simp [Expr.setsMember, he])
    refine fun m => (htarget m).bind fun place m₁ hrun => ?_
    refine hvalue.bind (fun _ => stays_assignTo place op fun hop hplace => h ?_) m₁
    simp [Expr.setsMember, hop, target.isMember_of_eval hrun hplace]
  | .update grows returnsNew arg, h => by
    rw [Expr.eval]
    refine (arg.stays_evalPlace fun he => h (by simp [Expr.setsMember, he])).bind fun place => ?_
    exact stays_updateAt place grows returnsNew
  | .unary op arg, h => by
    rw [Expr.eval]
    refine (arg.stays_eval fun he => h (by simp [Expr.setsMember, he])).bind fun _ => ?_
    exact stays_applyUnary op
  | .binary op left right, h => by
    rw [Expr.eval]
    refine (left.stays_eval fun he => h (by simp [Expr.setsMember, he])).bind fun _ => ?_
    refine (right.stays_eval fun he => h (by simp [Expr.setsMember, he])).bind fun _ => ?_
    exact stays_applyBinary op
  | .logical op left right, h => by
    rw [Expr.eval]
    refine (left.stays_eval fun he => h (by simp [Expr.setsMember, he])).bind fun _ => ?_
    refine stays_top fun l => ?_
    split
    · refine (right.stays_eval fun he => h (by simp [Expr.setsMember, he])).bind fun _ => ?_
      exact stays_settle 1
    · exact stays_pure ()

theorem Items.stays_evalElements :
    ∀ items : Items, (items.setsMember = true → members) →
      Stays ⟨on.scope, names, members⟩ (items.evalElements on)
  | .nil, _ => by
    rw [Items.evalElements]
    exact stays_pure ()
  | .item e rest, h => by
    rw [Items.evalElements]
    refine (e.stays_eval fun he => h (by simp [Items.setsMember, he])).bind fun _ => ?_
    exact rest.stays_evalElements fun he => h (by simp [Items.setsMember, he])
  | .hole rest, h => by
    rw [Items.evalElements]
    refine (stays_push .null).bind fun _ => ?_
    exact rest.stays_evalElements fun he => h (by simp [Items.setsMember, he])
  | .spread _, _ => by
    rw [Items.evalElements]
    exact stays_raise _

theorem Items.stays_evalArgs :
    ∀ items : Items, (items.setsMember = true → members) →
      Stays ⟨on.scope, names, members⟩ (items.evalArgs on)
  | .nil, _ => by
    rw [Items.evalArgs]
    exact stays_pure ()
  | .item e rest, h => by
    rw [Items.evalArgs]
    refine (e.stays_eval fun he => h (by simp [Items.setsMember, he])).bind fun _ => ?_
    exact rest.stays_evalArgs fun he => h (by simp [Items.setsMember, he])
  | .hole rest, h => by
    rw [Items.evalArgs]
    refine (stays_push .null).bind fun _ => ?_
    exact rest.stays_evalArgs fun he => h (by simp [Items.setsMember, he])
  | .spread _, _ => by
    rw [Items.evalArgs]
    exact stays_raise _

theorem Properties.stays_eval :
    ∀ properties : Properties, (properties.setsMember = true → members) → ∀ keys,
      Stays ⟨on.scope, names, members⟩ (properties.eval on keys)
  | .nil, _, keys => by
    rw [Properties.eval]
    exact stays_pure keys
  | .keyed key value rest, h, keys => by
    rw [Properties.eval]
    split
    · exact stays_raise _
    · refine (value.stays_eval fun he => h (by simp [Properties.setsMember, he])).bind fun _ => ?_
      refine (stays_addProperty keys _).bind fun keys => ?_
      exact rest.stays_eval (fun he => h (by simp [Properties.setsMember, he])) keys
  | .shorthand name rest, h, keys => by
    rw [Properties.eval]
    refine (stays_loadGlobal name).bind fun _ => (stays_addProperty keys name).bind fun keys => ?_
    exact rest.stays_eval (fun he => h (by simp [Properties.setsMember, he])) keys
  | .spread _, _, _ | .other _, _, _ => by
    rw [Properties.eval]
    exact stays_raise _

theorem MemberKey.stays_eval :
    ∀ key : MemberKey, (key.setsMember = true → members) →
      Stays ⟨on.scope, names, members⟩ (key.eval on)
  | .name s, _ => by
    rw [MemberKey.eval]
    exact stays_push _
  | .computed e, h => by
    rw [MemberKey.eval]
    exact e.stays_eval fun he => h (by simp [MemberKey.setsMember, he])
  | .hidden, _ => by
    rw [MemberKey.eval]
    exact stays_raise _

theorem Target.stays_eval :
    ∀ target : Target, (target.setsMember = true → members) →
      Stays ⟨on.scope, names, members⟩ (target.eval on)
  | .name x, _ => by
    rw [Target.eval]
    exact stays_pure _
  | .member target key, h => by
    rw [Target.eval]
    refine (target.stays_eval fun he => h (by simp [Target.setsMember, he])).bind fun _ => ?_
    refine (key.stays_eval fun he => h (by simp [Target.setsMember, he])).bind fun _ => ?_
    exact stays_peek 1 fun t => stays_top fun k => stays_pure _
  | .other, _ => by
    rw [Target.eval]
    exact stays_raise _

theorem Expr.stays_evalPlace :
    ∀ e : Expr, (e.setsMember = true → members) →
      Stays ⟨on.scope, names, members⟩ (e.evalPlace on)
  | .name x, _ => by
    rw [Expr.evalPlace]
    exact stays_pure _
  | .member target key, h => by
    rw [Expr.evalPlace]
    refine (target.stays_eval fun he => h (by simp [Expr.setsMember, he])).bind fun _ => ?_
    refine (key.stays_eval fun he => h (by simp [Expr.setsMember, he])).bind fun _ => ?_
    exact stays_peek 1 fun t => stays_top fun k => stays_pure _
  | .paren e, h => by
    rw [Expr.evalPlace]
    exact e.stays_evalPlace fun he => h (by simp [Expr.setsMember, he])
  | .null, _ | .bool _, _ | .number _, _ | .string _, _ | .array _, _ | .object _, _ | .call _ _, _
  | .specialCall, _ | .construct _ _, _ | .assign _ _ _, _ | .update _ _ _, _ | .unary _ _, _
  | .binary _ _ _, _ | .logical _ _ _, _ | .other, _ => by
    simp only [Expr.evalPlace]
    exact stays_raise _

end

/-! ## Statements -/

namespace Site

variable {q q' : Site × Machine} {x : String}

/-- Evaluation comes to a declarator of the name whose initialiser, if there is one, comes to its end. -/
def Declares (on : Surroundings) (q : Site × Machine) (x : String) : Prop :=
  ∃ init rest m, Reaches on q (.declarators (.name x init rest), m) ∧
    ∀ e, init = some e → ∃ m', e.eval on m = .done () m'

theorem Declares.head (hd : Declares on q' x) (h : Comes on q q') : Declares on q x := by
  obtain ⟨init, rest, m, hr, he⟩ := hd
  exact ⟨init, rest, m, .head h hr, he⟩

end Site

theorem Declarators.staysAt_exec (d : Declarators) (h : d.setsMember = true → members) {m : Machine}
    (hn : ∀ x, Site.Declares on (.declarators d, m) x → names x) :
    StaysAt ⟨on.scope, names, members⟩ (d.exec on) m := by
  induction d generalizing m with
  | nil =>
    rw [Declarators.exec]
    exact stays_pure () m
  | name x init rest ih =>
    have hrest : rest.setsMember = true → members :=
      fun hr => h (by simp [Declarators.setsMember, hr])
    cases init with
    | some e =>
      rw [Declarators.exec]
      have he : Stays ⟨on.scope, names, members⟩ (e.eval on) :=
        e.stays_eval fun hm => h (by simp [Declarators.setsMember, hm])
      refine (he m).bind fun _ m₁ hrun => ?_
      have hx : names x := hn x ⟨some e, rest, m, .refl, by rintro _ ⟨⟩; exact ⟨m₁, hrun⟩⟩
      refine StaysAt.bind (staysAt_declare (a := ⟨on.scope, names, members⟩) (.inl hx))
        fun _ m₂ hdeclare => ?_
      exact ih hrest fun y hy => hn y (hy.head (.afterInitial x e rest hrun hdeclare))
    | none =>
      rw [Declarators.exec]
      refine StaysAt.bind (stays_push .null m) fun _ m₁ hrun => ?_
      have hx : names x := hn x ⟨none, rest, m, .refl, fun _ he => by cases he⟩
      refine StaysAt.bind (staysAt_declare (a := ⟨on.scope, names, members⟩) (.inl hx))
        fun _ m₂ hdeclare => ?_
      exact ih hrest fun y hy => hn y (hy.head (.afterName x rest hrun hdeclare))
  | pattern rest _ =>
    rw [Declarators.exec]
    exact stays_raise _ m

theorem Expr.stays_test (e : Expr) (h : e.setsMember = true → members) :
    Stays ⟨on.scope, names, members⟩ (e.test on) :=
  (e.stays_eval h).bind fun _ => stays_top fun _ => stays_drop.bind fun _ => stays_pure _

/-- The rounds of a loop, each of which does what is allowed. -/
theorem staysAt_rounds {test : Expr} {body : Statement} (ht : test.setsMember = true → members)
    (hbody : ∀ m, (∀ x, Site.Declares on (.statement body, m) x → names x) →
      StaysAt ⟨on.scope, names, members⟩ (body.exec on) m) (patience : Nat) {m : Machine}
    (hn : ∀ x, Site.Declares on (.rounds test body patience, m) x → names x) :
    StaysAt ⟨on.scope, names, members⟩ (repeatWhile (test.test on) (body.exec on) patience) m := by
  induction patience generalizing m with
  | zero => exact stays_exhausted m
  | succ patience ih =>
    rw [repeatWhile_succ]
    refine (test.stays_test ht m).bind fun go m₁ htest => ?_
    cases go with
    | false => exact stays_pure () m₁
    | true =>
      refine (hbody m₁ fun x hx => hn x (hx.head (.roundBody test body patience htest))).bind
        fun _ m₂ hrun => ?_
      exact ih fun x hx => hn x (hx.head (.nextRound test body patience htest hrun))

mutual

theorem Statement.staysAt_exec : ∀ (s : Statement) (m : Machine), (s.setsMember = true → members) →
    (∀ x, Site.Declares on (.statement s, m) x → names x) →
      StaysAt ⟨on.scope, names, members⟩ (s.exec on) m
  | .expression e, m, h, _ => by
    rw [Statement.exec]
    exact (e.stays_eval h).bind (fun _ => stays_settle 1) m
  | .declare declarators, m, h, hn => by
    rw [Statement.exec]
    exact declarators.staysAt_exec h fun x hx => hn x (hx.head (.declaration declarators m))
  | .block body, m, h, hn => by
    rw [Statement.exec]
    exact body.staysAt_exec m h fun x hx => hn x (hx.head (.block body m))
  | .branch test yes, m, h, hn => by
    rw [Statement.exec]
    have htest : Stays ⟨on.scope, names, members⟩ (test.test on) :=
      test.stays_test fun ht => h (by simp [Statement.setsMember, ht])
    refine (htest m).bind fun go m₁ hrun => ?_
    cases go with
    | true =>
      exact yes.staysAt_exec m₁ (fun hy => h (by simp [Statement.setsMember, hy]))
        fun x hx => hn x (hx.head (.branchYes test yes hrun))
    | false => exact stays_pure () m₁
  | .choice test yes no, m, h, hn => by
    rw [Statement.exec]
    have htest : Stays ⟨on.scope, names, members⟩ (test.test on) :=
      test.stays_test fun ht => h (by simp [Statement.setsMember, ht])
    refine (htest m).bind fun go m₁ hrun => ?_
    cases go with
    | true =>
      exact yes.staysAt_exec m₁ (fun hy => h (by simp [Statement.setsMember, hy]))
        fun x hx => hn x (hx.head (.choiceYes test yes no hrun))
    | false =>
      exact no.staysAt_exec m₁ (fun hy => h (by simp [Statement.setsMember, hy]))
        fun x hx => hn x (hx.head (.choiceNo test yes no hrun))
  | .loop test body, m, h, hn => by
    rw [Statement.exec]
    exact staysAt_rounds (fun ht => h (by simp [Statement.setsMember, ht]))
      (fun m hb => body.staysAt_exec m (fun hs => h (by simp [Statement.setsMember, hs])) hb)
      on.patience fun x hx => hn x (hx.head (.loop test body m))
  | .empty, m, _, _ => by
    rw [Statement.exec]
    exact stays_pure () m
  | .other, m, _, _ => by
    rw [Statement.exec]
    exact stays_raise _ m

theorem Statements.staysAt_exec : ∀ (body : Statements) (m : Machine),
    (body.setsMember = true → members) →
    (∀ x, Site.Declares on (.statements body, m) x → names x) →
      StaysAt ⟨on.scope, names, members⟩ (body.exec on) m
  | .nil, m, _, _ => by
    rw [Statements.exec]
    exact stays_pure () m
  | .cons s rest, m, h, hn => by
    rw [Statements.exec]
    have hs := s.staysAt_exec m (fun hs => h (by simp [Statements.setsMember, hs])) fun x hx =>
      hn x (hx.head (.first s rest m))
    refine hs.bind fun _ m₁ hrun => ?_
    exact rest.staysAt_exec m₁ (fun hr => h (by simp [Statements.setsMember, hr]))
      fun x hx => hn x (hx.head (.next s rest hrun))

end

/-- A program does what is allowed if the names of its declarators are. -/
theorem staysAt_execProgram (program : Statements) {m : Machine}
    (h : program.setsMember = true → members)
    (hn : ∀ x, Site.Declares on (.program program, m) x → names x) :
    StaysAt ⟨on.scope, names, members⟩ (execProgram on program) m := by
  refine StaysAt.bind (stays_push .null m) fun _ m₁ hrun => ?_
  exact program.staysAt_exec m₁ h fun x hx => hn x (hx.head (.start program hrun))

end Enclave
