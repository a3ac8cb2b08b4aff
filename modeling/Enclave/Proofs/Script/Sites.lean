import Enclave.Proofs.Script.Bare

/-! # Sites in bare worlds

Whatever site evaluation comes to in a bare world, it comes to by steps that are allowed, and the work
there goes on by such steps. A site at which a member may be set is only come to from another one.
-/
namespace Enclave.Site

open Act

variable {on : Surroundings} {q q' : Site × Machine} {m m' : Machine} {t t' : Site} {members : Prop}

/-- Is there a plain assignment to a member at the site? -/
def setsMember : Site → Bool
  | expr e | place e | test e => e.setsMember
  | elements items | args items => items.setsMember
  | properties ps _ => ps.setsMember
  | key k => k.setsMember
  | target tg => tg.setsMember
  | assignment p op => op == .set && p.isMember
  | unary _ | binary _ => false
  | declarators d => d.setsMember
  | statement s => s.setsMember
  | statements body | program body => body.setsMember
  | rounds e body _ => e.setsMember || body.setsMember

theorem Comes.setsMember (h : Comes on (t, m) (t', m')) (ht : t'.setsMember = true) :
    t.setsMember = true := by
  cases h with
  | assignApply tg op e hplace he =>
    simp only [Site.setsMember, Bool.and_eq_true] at ht
    simp [Site.setsMember, Expr.setsMember, ht.1, tg.isMember_of_eval hplace ht.2]
  | _ =>
    simp_all [Site.setsMember, Expr.setsMember, Items.setsMember, Properties.setsMember,
      MemberKey.setsMember, Target.setsMember, Declarators.setsMember, Statement.setsMember,
      Statements.setsMember]

theorem Reaches.setsMember (h : Reaches on q q') (hq : q'.1.setsMember = true) :
    q.1.setsMember = true := by
  induction h with
  | refl => exact hq
  | tail _ hc ih => exact ih (hc.setsMember hq)

/-- The work at a site goes by steps, and members are only given scalars if none is set there. -/
theorem stays_act (t : Site) (h : t.setsMember = true → members) :
    Stays ⟨on.scope, fun _ => True, members⟩ (t.act on) := by
  cases t with
  | expr e => exact e.stays_eval h
  | elements items => exact items.stays_evalElements h
  | args items => exact items.stays_evalArgs h
  | properties ps keys => exact (ps.stays_eval h keys).bind fun _ => stays_pure ()
  | key k => exact k.stays_eval h
  | target tg => exact (tg.stays_eval h).bind fun _ => stays_pure ()
  | place e => exact (e.stays_evalPlace h).bind fun _ => stays_pure ()
  | assignment p op => exact stays_assignTo p op fun hop hp => h (by simp [setsMember, hop, hp])
  | unary op => exact stays_applyUnary op
  | binary op => exact stays_applyBinary op
  | declarators d => exact fun m => d.staysAt_exec h fun _ _ => trivial
  | test e => exact (e.stays_test h).bind fun _ => stays_pure ()
  | statement s => exact fun m => s.staysAt_exec m h fun _ _ => trivial
  | statements body => exact fun m => body.staysAt_exec m h fun _ _ => trivial
  | rounds e body patience =>
    have he : e.setsMember = true → members := fun he => h (by simp [setsMember, he])
    have hbody : body.setsMember = true → members := fun hb => h (by simp [setsMember, hb])
    exact fun m => staysAt_rounds he (fun m _ => body.staysAt_exec m hbody fun _ _ => trivial)
      patience fun _ _ => trivial
  | program body => exact fun m => staysAt_execProgram body h fun _ _ => trivial

/-- Where evaluation comes to next, it comes to by such steps. -/
theorem Comes.leads_of (h : Comes on (t, m) (t', m')) (hb : m.world.Bare)
    (ht : t.setsMember = true → members) :
    m.world.Leads ⟨on.scope, fun _ => True, members⟩ m'.world := by
  -- The parts of a site set members only if the site does.
  have hpart : ∀ t₀ : Site, (t₀.setsMember = true → t.setsMember = true) →
      Stays ⟨on.scope, fun _ => True, members⟩ (t₀.act on) := fun t₀ h₀ =>
    t₀.stays_act fun hset => ht (h₀ hset)
  have heval : ∀ e : Expr, (e.setsMember = true → t.setsMember = true) →
      Stays ⟨on.scope, fun _ => True, members⟩ (e.eval on) := fun e => hpart (.expr e)
  have hargs : ∀ items : Items, (items.setsMember = true → t.setsMember = true) →
      Stays ⟨on.scope, fun _ => True, members⟩ (items.evalArgs on) := fun items =>
    hpart (.args items)
  have htarget : ∀ tg : Target, (tg.setsMember = true → t.setsMember = true) →
      Stays ⟨on.scope, fun _ => True, members⟩ (tg.eval on) := fun tg h₀ =>
    tg.stays_eval fun hset => ht (h₀ hset)
  have htest : ∀ e : Expr, (e.setsMember = true → t.setsMember = true) →
      Stays ⟨on.scope, fun _ => True, members⟩ (e.test on) := fun e h₀ =>
    e.stays_test fun hset => ht (h₀ hset)
  have hexec : ∀ s : Statement, (s.setsMember = true → t.setsMember = true) →
      Stays ⟨on.scope, fun _ => True, members⟩ (s.exec on) := fun s => hpart (.statement s)
  have hdeclare : ∀ x, Stays ⟨on.scope, fun _ => True, members⟩ (declare on.scope x) := fun x m =>
    staysAt_declare (a := ⟨on.scope, fun _ => True, members⟩) (.inl trivial)
  cases h with
  -- Parts that come first.
  | paren | array | object | memberTarget | methodArgs | callArgs | constructCallee | assignTarget
  | update | unaryArg | binaryLeft | logicalLeft | element | arg | property | computedKey | targetOf
  | placeOf | placeParen | initial | tested | expression | declaration | block | branchTest
  | choiceTest | loop | roundTest | first => exact .refl _
  -- Parts that come after one other.
  | memberKey _ _ he | constructArgs _ _ he | unaryApply _ _ he | binaryRight _ _ _ he
  | logicalRight _ _ _ he | afterElement _ _ he | afterArg _ _ he | targetKey _ _ he
  | placeKey _ _ he =>
    refine (heval _ fun hset => ?_).leads hb he
    simp [Site.setsMember, Expr.setsMember, Items.setsMember, Target.setsMember, hset]
  | methodTarget _ _ _ ha | callCallee _ _ _ ha =>
    refine (hargs _ fun hset => ?_).leads hb ha
    simp [Site.setsMember, Expr.setsMember, hset]
  | assignValue _ _ _ hplace =>
    refine (htarget _ fun hset => ?_).leads hb hplace
    simp [Site.setsMember, Expr.setsMember, hset]
  | afterHole _ hn | afterArgHole _ hn | start _ hn => exact (stays_push .null).leads hb hn
  | branchYes _ _ hgo | choiceYes _ _ _ hgo | choiceNo _ _ _ hgo | roundBody _ _ _ hgo =>
    refine (htest _ fun hset => ?_).leads hb hgo
    simp [Site.setsMember, Statement.setsMember, hset]
  | next _ _ hs =>
    refine (hexec _ fun hset => ?_).leads hb hs
    simp [Site.setsMember, Statements.setsMember, hset]
  -- Parts that come after two others.
  | methodKey _ _ _ ha he =>
    refine (hargs _ fun hset => ?_).leads_then hb ha (heval _ fun hset => ?_) he
    all_goals simp [Site.setsMember, Expr.setsMember, hset]
  | assignApply _ _ _ hplace he =>
    refine (htarget _ fun hset => ?_).leads_then hb hplace (heval _ fun hset => ?_) he
    all_goals simp [Site.setsMember, Expr.setsMember, hset]
  | binaryApply _ _ _ hl hr =>
    refine (heval _ fun hset => ?_).leads_then hb hl (heval _ fun hset => ?_) hr
    all_goals simp [Site.setsMember, Expr.setsMember, hset]
  | afterProperty _ _ _ keys _ he ha =>
    refine (heval _ fun hset => ?_).leads_then hb he (stays_addProperty keys _) ha
    simp [Site.setsMember, Properties.setsMember, hset]
  | afterShorthand name _ keys hl ha =>
    exact (stays_loadGlobal name).leads_then hb hl (stays_addProperty keys name) ha
  | afterInitial x _ _ he hd =>
    refine (heval _ fun hset => ?_).leads_then hb he (hdeclare x) hd
    simp [Site.setsMember, Declarators.setsMember, hset]
  | afterName x _ hn hd => exact (stays_push .null).leads_then hb hn (hdeclare x) hd
  | nextRound _ _ _ hgo hs =>
    refine (htest _ fun hset => ?_).leads_then hb hgo (hexec _ fun hset => ?_) hs
    all_goals simp [Site.setsMember, hset]

/-- Wherever evaluation gets to, it gets to by such steps. -/
theorem Reaches.leads_of (h : Reaches on q q') (hb : q.2.world.Bare)
    (ht : q.1.setsMember = true → members) :
    q.2.world.Leads ⟨on.scope, fun _ => True, members⟩ q'.2.world := by
  induction h with
  | refl => exact .refl _
  | tail hr hc ih => exact ih.trans (hc.leads_of (ih.bare hb) fun hset => ht (Reaches.setsMember hr hset))

end Enclave.Site
