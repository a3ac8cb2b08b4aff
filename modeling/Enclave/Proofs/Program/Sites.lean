import Enclave.Proofs.Program.Evaluation

/-! # Sites in scripts that mind the counters

Wherever evaluation gets to in a script that minds the counters, the machine is in order: one move between
sites keeps it so, and every run does.
-/
namespace Enclave

open Act Program

variable {t : Limits} {patience depth : Nat} {m m₁ m' : Machine} {s s' : Site}

/-- What the work at a site needs on the stack. -/
def Site.Stands : Site → Machine → Prop
  | properties _ keys, m => ∃ rest, m.Spreads keys.length rest
  | statement _, m | statements _, m | rounds _ _ _, m => Over 1 [] m.world.stack
  | _, _ => True

/-- What an act leaves that minds the counters and has a specification. -/
theorem Act.Minds.leaves {α : Type} {x : Act α} {r : α} {Q : α → Machine → Prop} {P : List Slot → Prop}
    {P' : α → List Slot → Prop} (hx : Minds x m Q) (hs : Spec t True [] P x P') (hg : m.Good t [])
    (hp : P m.world.stack) (hrun : x m = .done r m') :
    m'.Counts ∧ m'.Good t [] ∧ P' r m'.world.stack ∧ Q r m' := by
  obtain ⟨h', hq⟩ := hx r m' hrun
  obtain ⟨hg', hp'⟩ := hs.after hg hp hrun
  exact ⟨h', hg', hp', hq⟩

section Leaves

variable (h : m.Counts) (hg : m.Good t [])
include h hg

theorem Expr.leaves {e : Expr} (hs : (Site.expr e).Minds (runs patience depth) m)
    (hrun : e.eval (runs patience depth) m = .done () m') :
    m'.Counts ∧ m'.Good t [] ∧ m'.Tops m.world.stack := by
  obtain ⟨h', hg', -, htops⟩ := (e.minds_eval hs h hg).leaves
    (e.shifts_eval (safe_runs t patience depth) []) hg (over_zero.mpr hg.keeps) hrun
  exact ⟨h', hg', htops⟩

theorem Items.leaves {items : Items} (hs : (Site.args items).Minds (runs patience depth) m)
    (hrun : items.evalArgs (runs patience depth) m = .done () m') :
    m'.Counts ∧ m'.Good t [] ∧ m'.Spreads items.length m.world.stack := by
  obtain ⟨h', hg', -, hspreads⟩ := (items.minds_evalArgs hs h hg).leaves
    (items.shifts_evalArgs (safe_runs t patience depth) []) hg (over_zero.mpr hg.keeps) hrun
  exact ⟨h', hg', hspreads⟩

theorem MemberKey.leaves {key : MemberKey} (hs : (Site.key key).Minds (runs patience depth) m)
    (hrun : key.eval (runs patience depth) m = .done () m') :
    m'.Counts ∧ m'.Good t [] ∧ m'.Tops m.world.stack := by
  obtain ⟨h', hg', -, htops⟩ := (key.minds_eval hs h hg).leaves
    (key.shifts_eval (safe_runs t patience depth) []) hg (over_zero.mpr hg.keeps) hrun
  exact ⟨h', hg', htops⟩

theorem Target.leaves {target : Target} {place : Location}
    (hs : (Site.target target).Minds (runs patience depth) m)
    (hrun : target.eval (runs patience depth) m = .done place m') : m'.Counts ∧ m'.Good t [] := by
  obtain ⟨h', hg', -⟩ := (target.minds_eval hs h hg).leaves
    (target.shifts_eval (safe_runs t patience depth) []) hg (over_zero.mpr hg.keeps) hrun
  exact ⟨h', hg'⟩

theorem Expr.leaves_test {e : Expr} {go : Bool} (hs : (Site.test e).Minds (runs patience depth) m)
    (hover : Over 1 [] m.world.stack) (hrun : e.test (runs patience depth) m = .done go m') :
    m'.Counts ∧ m'.Good t [] ∧ Over 1 [] m'.world.stack := by
  obtain ⟨h', hg', hover', -⟩ := (e.minds_test hs h hg).leaves e.spec_test hg hover hrun
  exact ⟨h', hg', hover'⟩

theorem Statement.leaves {s : Statement} (hs : (Site.statement s).Minds (runs patience depth) m)
    (hover : Over 1 [] m.world.stack) (hrun : s.exec (runs patience depth) m = .done () m') :
    m'.Counts ∧ m'.Good t [] ∧ Over 1 [] m'.world.stack := by
  obtain ⟨h', hg', hover', -⟩ := (s.minds_exec hs h hg hover).leaves
    (s.shifts_exec (safe_runs t patience depth) []) hg hover hrun
  exact ⟨h', hg', hover'⟩

theorem Act.push_leaves {v : Scalar} (hrun : push v m = .done () m') :
    m'.Counts ∧ m'.Good t [] ∧ Over 1 [] m'.world.stack := by
  obtain ⟨h', hg', hover', -⟩ := (minds_push h v).leaves (shifts_push v []) hg
    (over_zero.mpr hg.keeps) hrun
  exact ⟨h', hg', hover'⟩

omit h in
/-- A property that got its value leaves the values of the keys so far. -/
theorem Act.entry_leaves {x : Act Unit} {keys more : List String} {name : String} {low : List Slot}
    (hspreads : m.Spreads keys.length low) (hx : Minds x m fun _ m' => m'.Tops m.world.stack)
    (hshifts : Shifts t True 0 x fun _ => 1) (hrun : x m = .done () m₁)
    (hadd : addProperty keys name m₁ = .done more m') :
    m'.Counts ∧ m'.Good t [] ∧ ∃ low, m'.Spreads more.length low := by
  have hentry : Minds (x >>= fun _ => addProperty keys name >>= pure) m fun keys' m' =>
      m'.Good t [] ∧ m'.Spreads keys'.length low :=
    minds_entry hg hspreads hx hshifts fun keys' _ _ _ _ h₂ hg₂ hspreads₂ =>
      minds_pure h₂ keys' ⟨hg₂, hspreads₂⟩
  obtain ⟨h', hg', hspreads'⟩ := hentry more m' ((bind_done hrun).trans ((bind_done hadd).trans rfl))
  exact ⟨h', hg', low, hspreads'⟩

omit h in
/-- So does a global that got its value leave the machine in order. -/
theorem Act.initial_leaves {x : Act Unit} {name : String} (hname : name ≠ className)
    (hx : Minds x m fun _ m' => m'.Tops m.world.stack) (hshifts : Shifts t True 0 x fun _ => 1)
    (hrun : x m = .done () m₁) (hdeclare : declare 0 name m₁ = .done () m') :
    m'.Counts ∧ m'.Good t [] ∧ True := by
  have hinitial : Minds (x >>= fun _ => declare 0 name >>= pure) m fun _ m' => m'.Good t [] :=
    minds_initial hg hname hx hshifts fun _ _ _ _ h₂ hg₂ => minds_pure h₂ () hg₂
  obtain ⟨h', hg'⟩ := hinitial () m' ((bind_done hrun).trans ((bind_done hdeclare).trans rfl))
  exact ⟨h', hg', trivial⟩

end Leaves

namespace Site

/-- A site that evaluation is at in a script that minds the counters, with a machine in order. -/
structure Orderly (on : Surroundings) (t : Limits) (s : Site) (m : Machine) : Prop where
  minds : s.Minds on m
  counts : m.Counts
  good : m.Good t []
  stands : s.Stands m

theorem Comes.orderly (h : Comes (runs patience depth) (s, m) (s', m'))
    (ho : s.Orderly (runs patience depth) t m) : s'.Orderly (runs patience depth) t m' := by
  suffices hkeeps : m'.Counts ∧ m'.Good t [] ∧ s'.Stands m' from
    ⟨ho.minds.comes h, hkeeps.1, hkeeps.2.1, hkeeps.2.2⟩
  obtain ⟨hs, hm, hg, hstands⟩ := ho
  have hc := safe_runs t patience depth
  have heval : ∀ {e : Expr} {m₁ : Machine}, (expr e).Minds (runs patience depth) m →
      e.eval (runs patience depth) m = .done () m₁ → m₁.Counts ∧ m₁.Good t [] ∧ True := by
    intro e m₁ he hrun
    obtain ⟨hm₁, hg₁, -⟩ := Expr.leaves hm hg he hrun
    exact ⟨hm₁, hg₁, trivial⟩
  have hargs : ∀ {items : Items} {m₁ : Machine}, (args items).Minds (runs patience depth) m →
      items.evalArgs (runs patience depth) m = .done () m₁ → m₁.Counts ∧ m₁.Good t [] ∧ True := by
    intro items m₁ hi hrun
    obtain ⟨hm₁, hg₁, -⟩ := Items.leaves hm hg hi hrun
    exact ⟨hm₁, hg₁, trivial⟩
  cases h with
  -- Parts that come first.
  | paren | array | memberTarget | methodArgs | callArgs | constructCallee | assignTarget | update
  | unaryArg | binaryLeft | logicalLeft | element | arg | property | computedKey | targetOf | placeOf
  | placeParen | initial | tested | expression | declaration | branchTest | choiceTest | roundTest =>
    exact ⟨hm, hg, trivial⟩
  | block | loop | first => exact ⟨hm, hg, hstands⟩
  | object ps => exact ⟨hm, hg, m.world.stack, m.spreads_nil⟩
  -- Parts that come after one other.
  | memberKey e k he =>
    exact heval (hs.comes (.memberTarget e k m)) he
  | constructArgs callee items he =>
    exact heval (hs.comes (.constructCallee callee items m)) he
  | unaryApply op e he =>
    exact heval (hs.comes (.unaryArg op e m)) he
  | binaryRight op l r hl =>
    exact heval (hs.comes (.binaryLeft op l r m)) hl
  | logicalRight op l r hl =>
    exact heval (hs.comes (.logicalLeft op l r m)) hl
  | afterElement e rest he =>
    exact heval (hs.comes (.element e rest m)) he
  | afterArg e rest he =>
    exact heval (hs.comes (.arg e rest m)) he
  | targetKey e k he =>
    exact heval (hs.comes (.targetOf e k m)) he
  | placeKey e k he =>
    exact heval (hs.comes (.placeOf e k m)) he
  | methodTarget e k items ha =>
    exact hargs (hs.comes (.methodArgs e k items m)) ha
  | callCallee callee items hp ha =>
    exact hargs (hs.comes (.callArgs callee items m hp)) ha
  | assignValue tg op e hplace =>
    obtain ⟨hm', hg'⟩ := Target.leaves hm hg (hs.comes (.assignTarget tg op e m)) hplace
    exact ⟨hm', hg', trivial⟩
  | afterHole rest hn | afterArgHole rest hn =>
    obtain ⟨hm', hg', -⟩ := push_leaves hm hg hn
    exact ⟨hm', hg', trivial⟩
  | start body hn => exact push_leaves hm hg hn
  | branchYes e yes hgo => exact Expr.leaves_test hm hg (hs.comes (.branchTest e yes m)) hstands hgo
  | choiceYes e yes no hgo | choiceNo e yes no hgo =>
    exact Expr.leaves_test hm hg (hs.comes (.choiceTest e yes no m)) hstands hgo
  | roundBody e body n hgo =>
    exact Expr.leaves_test hm hg (hs.comes (.roundTest e body n m)) hstands hgo
  | next s rest hrun => exact Statement.leaves hm hg (hs.comes (.first s rest m)) hstands hrun
  -- Parts that come after two others.
  | methodKey e k items ha he =>
    obtain ⟨hm₁, hg₁, -⟩ := Items.leaves hm hg (hs.comes (.methodArgs e k items m)) ha
    obtain ⟨hm', hg', -⟩ := Expr.leaves hm₁ hg₁ (hs.comes (.methodTarget e k items ha)) he
    exact ⟨hm', hg', trivial⟩
  | assignApply tg op e hplace he =>
    obtain ⟨hm₁, hg₁⟩ := Target.leaves hm hg (hs.comes (.assignTarget tg op e m)) hplace
    obtain ⟨hm', hg', -⟩ := Expr.leaves hm₁ hg₁ (hs.comes (.assignValue tg op e hplace)) he
    exact ⟨hm', hg', trivial⟩
  | binaryApply op l r hl hr =>
    obtain ⟨hm₁, hg₁, -⟩ := Expr.leaves hm hg (hs.comes (.binaryLeft op l r m)) hl
    obtain ⟨hm', hg', -⟩ := Expr.leaves hm₁ hg₁ (hs.comes (.binaryRight op l r hl)) hr
    exact ⟨hm', hg', trivial⟩
  | nextRound e body n hgo hrun =>
    obtain ⟨hm₁, hg₁, hover₁⟩ := Expr.leaves_test hm hg (hs.comes (.roundTest e body n m)) hstands hgo
    exact Statement.leaves hm₁ hg₁ (hs.comes (.roundBody e body n hgo)) hover₁ hrun
  | afterProperty k e rest keys hk he ha =>
    obtain ⟨low, hspreads⟩ := hstands
    have hvalue := e.minds_eval (hs.comes (.property k e rest keys m hk)) hm hg
    exact entry_leaves hg hspreads hvalue (e.shifts_eval hc) he ha
  | afterShorthand name rest keys hl ha =>
    obtain ⟨low, hspreads⟩ := hstands
    exact entry_leaves hg hspreads (minds_loadGlobal hm name).tops (shifts_loadGlobal 0 name) hl ha
  | afterInitial x e rest he hd =>
    have hvalue := e.minds_eval (hs.comes (.initial x e rest m)) hm hg
    exact initial_leaves hg hs.spares hvalue (e.shifts_eval hc) he hd
  | afterName x rest hn hd =>
    exact initial_leaves hg hs.spares (minds_push hm _).tops (shifts_push _) hn hd

/-- Wherever evaluation gets to from a site in order, it gets to another one in order. -/
theorem Reaches.orderly {q q' : Site × Machine} (h : Reaches (runs patience depth) q q')
    (ho : q.1.Orderly (runs patience depth) t q.2) : q'.1.Orderly (runs patience depth) t q'.2 := by
  induction h with
  | refl => exact ho
  | tail _ hcomes ih => exact hcomes.orderly ih

end Site
end Enclave
