import Mathlib.Logic.Relation
import Enclave.Proofs.Act.Spec

/-! # Where evaluation comes to

Evaluation works on one part of a script after the other. A site is a part to be worked on, or an
operator whose operands are on the stack. From one site evaluation comes to another as soon as
everything before it has succeeded. A fault at a site that evaluation has come to is the fault of the
whole.
-/
namespace Enclave

open Act

namespace Act

variable {α β : Type} {x : Act α} {f : α → Act β} {m m' : Machine} {fault : Fault}

theorem bind_done {a : α} (h : x m = .done a m') : (x >>= f) m = f a m' := by
  change Act.bind x f m = _
  rw [Act.bind, h]

theorem bind_raised (h : x m = .raised fault m') : (x >>= f) m = .raised fault m' := by
  change Act.bind x f m = _
  rw [Act.bind, h]

theorem bind_stopped {halt : Halt} (h : x m = .stopped halt) : (x >>= f) m = .stopped halt := by
  change Act.bind x f m = _
  rw [Act.bind, h]

theorem map_done {a : α} (h : x m = .done a m') (g : α → β) : (g <$> x) m = .done (g a) m' :=
  (bind_done h).trans rfl

/-- An act that succeeds is made of two that do. -/
theorem bind_done_iff {b : β} :
    (x >>= f) m = .done b m' ↔ ∃ a m₁, x m = .done a m₁ ∧ f a m₁ = .done b m' := by
  change Act.bind x f m = _ ↔ _
  unfold Act.bind
  cases hx : x m with
  | done a m₁ => simp
  | raised fault m₁ => simp
  | stopped halt => simp

/-- What follows two acts that come to the same comes to the same. -/
theorem bind_congr {y : Act α} {m₁ : Machine} (h : x m = y m₁) : (x >>= f) m = (y >>= f) m₁ := by
  change Act.bind x f m = Act.bind y f m₁
  rw [Act.bind, Act.bind, h]

/-- What follows an act need only be the same after what the act comes to. -/
theorem bind_congr_done {g : α → Act β} (h : ∀ a m', x m = .done a m' → f a m' = g a m') :
    (x >>= f) m = (x >>= g) m := by
  change Act.bind x f m = Act.bind x g m
  unfold Act.bind
  cases hx : x m with
  | done a m' => exact h a m' hx
  | raised fault m' | stopped halt => rfl

theorem bind_bind {γ : Type} (x : Act α) (f : α → Act β) (g : β → Act γ) :
    ((x >>= f) >>= g) = x >>= fun a => f a >>= g := by
  funext m
  change Act.bind (Act.bind x f) g m = Act.bind x (fun a => Act.bind (f a) g) m
  unfold Act.bind
  cases x m <;> rfl

theorem map_raised {g : α → β} : (g <$> x) m = .raised fault m' ↔ x m = .raised fault m' := by
  change Act.bind x _ m = _ ↔ _
  rw [Act.bind]
  cases x m <;> simp [Act.pure]

theorem recover_eq (x : Act α) (m : Machine) :
    recover x m =
      match x m with
      | .done a m' => .done (.ok a) m'
      | .raised fault m' =>
        .done (.error fault) { m' with world := m'.world.unwind m.world.stack.length }
      | .stopped halt => .stopped halt := by
  change Act.bind (attempt x) _ m = _
  unfold Act.bind attempt
  cases x m <;> rfl

theorem world_eq (m : Machine) : world m = .done m.world m :=
  rfl

theorem height_eq (m : Machine) : height m = .done m.world.stack.length m :=
  rfl

theorem top_eq (m : Machine) : top m = .done m.world.top m :=
  rfl

theorem newest_eq (n : Nat) (m : Machine) : newest n m = .done (m.world.newest n) m :=
  rfl

theorem eval_null (on : Surroundings) (m : Machine) :
    Expr.null.eval on m = .done () { m with world := m.world.push .null } := by
  rw [Expr.eval]
  rfl

end Act

/-- What evaluation can be at. -/
inductive Site where
  | expr (e : Expr)
  | elements (items : Items)
  | args (items : Items)
  | properties (properties : Properties) (keys : List String)
  | key (k : MemberKey)
  | target (target : Target)
  | place (e : Expr)
  | assignment (place : Location) (op : AssignOp)
  | unary (op : UnaryOp)
  | binary (op : BinaryOp)
  | declarators (declarators : Declarators)
  | test (e : Expr)
  | statement (s : Statement)
  | statements (body : Statements)
  | rounds (test : Expr) (body : Statement) (patience : Nat)
  | program (program : Statements)

namespace Site

/-- The work at a site, without its result. -/
def act (on : Surroundings) : Site → Act Unit
  | .expr e => e.eval on
  | .elements items => items.evalElements on
  | .args items => items.evalArgs on
  | .properties ps keys => (fun _ => ()) <$> ps.eval on keys
  | .key k => k.eval on
  | .target tg => (fun _ => ()) <$> tg.eval on
  | .place e => (fun _ => ()) <$> e.evalPlace on
  | .assignment p op => assignTo on.scope p op
  | .unary op => applyUnary op
  | .binary op => applyBinary op
  | .declarators d => d.exec on
  | .test e => (fun _ => ()) <$> e.test on
  | .statement s => s.exec on
  | .statements body => body.exec on
  | .rounds e body patience => repeatWhile (e.test on) (body.exec on) patience
  | .program body => execProgram on body

/-- Evaluation comes from one site to another. -/
inductive Comes (on : Surroundings) : Site × Machine → Site × Machine → Prop
  | paren (e : Expr) (m : Machine) : Comes on (expr (.paren e), m) (expr e, m)
  | array (items : Items) (m : Machine) :
      Comes on (expr (.array items), m) (elements items, m)
  | object (ps : Properties) (m : Machine) :
      Comes on (expr (.object ps), m) (properties ps [], m)
  | memberTarget (e : Expr) (k : MemberKey) (m : Machine) :
      Comes on (expr (.member e k), m) (expr e, m)
  | memberKey (e : Expr) (k : MemberKey) {m m₁ : Machine} (he : e.eval on m = .done () m₁) :
      Comes on (expr (.member e k), m) (key k, m₁)
  | methodArgs (e : Expr) (k : MemberKey) (items : Items) (m : Machine) :
      Comes on (expr (.call (.member e k) items), m) (args items, m)
  | methodTarget (e : Expr) (k : MemberKey) (items : Items) {m m₁ : Machine}
      (ha : items.evalArgs on m = .done () m₁) :
      Comes on (expr (.call (.member e k) items), m) (expr e, m₁)
  | methodKey (e : Expr) (k : MemberKey) (items : Items) {m m₁ m₂ : Machine}
      (ha : items.evalArgs on m = .done () m₁) (he : e.eval on m₁ = .done () m₂) :
      Comes on (expr (.call (.member e k) items), m) (key k, m₂)
  | callArgs (callee : Expr) (items : Items) (m : Machine)
      (hp : ∀ e k, callee ≠ .member e k) :
      Comes on (expr (.call callee items), m) (args items, m)
  | callCallee (callee : Expr) (items : Items) {m m₁ : Machine}
      (hp : ∀ e k, callee ≠ .member e k) (ha : items.evalArgs on m = .done () m₁) :
      Comes on (expr (.call callee items), m) (expr callee, m₁)
  | constructCallee (callee : Expr) (items : Items) (m : Machine) :
      Comes on (expr (.construct callee items), m) (expr callee, m)
  | constructArgs (callee : Expr) (items : Items) {m m₁ : Machine}
      (he : callee.eval on m = .done () m₁) :
      Comes on (expr (.construct callee items), m) (args items, m₁)
  | assignTarget (tg : Target) (op : AssignOp) (e : Expr) (m : Machine) :
      Comes on (expr (.assign tg op e), m) (target tg, m)
  | assignValue (tg : Target) (op : AssignOp) (e : Expr) {p : Location} {m m₁ : Machine}
      (ht : tg.eval on m = .done p m₁) :
      Comes on (expr (.assign tg op e), m) (expr e, m₁)
  | assignApply (tg : Target) (op : AssignOp) (e : Expr) {p : Location} {m m₁ m₂ : Machine}
      (ht : tg.eval on m = .done p m₁) (he : e.eval on m₁ = .done () m₂) :
      Comes on (expr (.assign tg op e), m) (assignment p op, m₂)
  | update (grows returnsNew : Bool) (e : Expr) (m : Machine) :
      Comes on (expr (.update grows returnsNew e), m) (place e, m)
  | unaryArg (op : UnaryOp) (e : Expr) (m : Machine) :
      Comes on (expr (.unary op e), m) (expr e, m)
  | unaryApply (op : UnaryOp) (e : Expr) {m m₁ : Machine} (he : e.eval on m = .done () m₁) :
      Comes on (expr (.unary op e), m) (unary op, m₁)
  | binaryLeft (op : BinaryOp) (l r : Expr) (m : Machine) :
      Comes on (expr (.binary op l r), m) (expr l, m)
  | binaryRight (op : BinaryOp) (l r : Expr) {m m₁ : Machine} (hl : l.eval on m = .done () m₁) :
      Comes on (expr (.binary op l r), m) (expr r, m₁)
  | binaryApply (op : BinaryOp) (l r : Expr) {m m₁ m₂ : Machine}
      (hl : l.eval on m = .done () m₁) (hr : r.eval on m₁ = .done () m₂) :
      Comes on (expr (.binary op l r), m) (binary op, m₂)
  | logicalLeft (op : LogicalOp) (l r : Expr) (m : Machine) :
      Comes on (expr (.logical op l r), m) (expr l, m)
  | logicalRight (op : LogicalOp) (l r : Expr) {m m₁ : Machine}
      (hl : l.eval on m = .done () m₁) (ht : m₁.world.top.truthy = (op == .both)) :
      Comes on (expr (.logical op l r), m) (expr r, m₁)
  | element (e : Expr) (rest : Items) (m : Machine) :
      Comes on (elements (.item e rest), m) (expr e, m)
  | afterElement (e : Expr) (rest : Items) {m m₁ : Machine} (he : e.eval on m = .done () m₁) :
      Comes on (elements (.item e rest), m) (elements rest, m₁)
  | afterHole (rest : Items) {m m₁ : Machine} (hn : push .null m = .done () m₁) :
      Comes on (elements (.hole rest), m) (elements rest, m₁)
  | arg (e : Expr) (rest : Items) (m : Machine) :
      Comes on (args (.item e rest), m) (expr e, m)
  | afterArg (e : Expr) (rest : Items) {m m₁ : Machine} (he : e.eval on m = .done () m₁) :
      Comes on (args (.item e rest), m) (args rest, m₁)
  | afterArgHole (rest : Items) {m m₁ : Machine} (hn : push .null m = .done () m₁) :
      Comes on (args (.hole rest), m) (args rest, m₁)
  | property (k : PropertyKey) (e : Expr) (rest : Properties) (keys : List String) (m : Machine)
      {name : String} (hk : fromComputed k = some name) :
      Comes on (properties (.keyed k e rest) keys, m) (expr e, m)
  | afterProperty (k : PropertyKey) (e : Expr) (rest : Properties) (keys : List String)
      {name : String} {more : List String} {m m₁ m₂ : Machine} (hk : fromComputed k = some name)
      (he : e.eval on m = .done () m₁) (ha : addProperty keys name m₁ = .done more m₂) :
      Comes on (properties (.keyed k e rest) keys, m) (properties rest more, m₂)
  | afterShorthand (name : String) (rest : Properties) (keys : List String)
      {more : List String} {m m₁ m₂ : Machine} (hl : loadGlobal on.scope name m = .done () m₁)
      (ha : addProperty keys name m₁ = .done more m₂) :
      Comes on (properties (.shorthand name rest) keys, m) (properties rest more, m₂)
  | computedKey (e : Expr) (m : Machine) : Comes on (key (.computed e), m) (expr e, m)
  | targetOf (e : Expr) (k : MemberKey) (m : Machine) :
      Comes on (target (.member e k), m) (expr e, m)
  | targetKey (e : Expr) (k : MemberKey) {m m₁ : Machine} (he : e.eval on m = .done () m₁) :
      Comes on (target (.member e k), m) (key k, m₁)
  | placeOf (e : Expr) (k : MemberKey) (m : Machine) :
      Comes on (place (.member e k), m) (expr e, m)
  | placeKey (e : Expr) (k : MemberKey) {m m₁ : Machine} (he : e.eval on m = .done () m₁) :
      Comes on (place (.member e k), m) (key k, m₁)
  | placeParen (e : Expr) (m : Machine) : Comes on (place (.paren e), m) (place e, m)
  | initial (x : String) (e : Expr) (rest : Declarators) (m : Machine) :
      Comes on (declarators (.name x (some e) rest), m) (expr e, m)
  | afterInitial (x : String) (e : Expr) (rest : Declarators) {m m₁ m₂ : Machine}
      (he : e.eval on m = .done () m₁) (hd : declare on.scope x m₁ = .done () m₂) :
      Comes on (declarators (.name x (some e) rest), m) (declarators rest, m₂)
  | afterName (x : String) (rest : Declarators) {m m₁ m₂ : Machine}
      (hn : push .null m = .done () m₁) (hd : declare on.scope x m₁ = .done () m₂) :
      Comes on (declarators (.name x none rest), m) (declarators rest, m₂)
  | tested (e : Expr) (m : Machine) : Comes on (test e, m) (expr e, m)
  | expression (e : Expr) (m : Machine) : Comes on (statement (.expression e), m) (expr e, m)
  | declaration (d : Declarators) (m : Machine) :
      Comes on (statement (.declare d), m) (declarators d, m)
  | block (body : Statements) (m : Machine) :
      Comes on (statement (.block body), m) (statements body, m)
  | branchTest (e : Expr) (yes : Statement) (m : Machine) :
      Comes on (statement (.branch e yes), m) (test e, m)
  | branchYes (e : Expr) (yes : Statement) {m m₁ : Machine}
      (ht : e.test on m = .done true m₁) :
      Comes on (statement (.branch e yes), m) (statement yes, m₁)
  | choiceTest (e : Expr) (yes no : Statement) (m : Machine) :
      Comes on (statement (.choice e yes no), m) (test e, m)
  | choiceYes (e : Expr) (yes no : Statement) {m m₁ : Machine}
      (ht : e.test on m = .done true m₁) :
      Comes on (statement (.choice e yes no), m) (statement yes, m₁)
  | choiceNo (e : Expr) (yes no : Statement) {m m₁ : Machine}
      (ht : e.test on m = .done false m₁) :
      Comes on (statement (.choice e yes no), m) (statement no, m₁)
  | loop (e : Expr) (body : Statement) (m : Machine) :
      Comes on (statement (.loop e body), m) (rounds e body on.patience, m)
  | roundTest (e : Expr) (body : Statement) (patience : Nat) (m : Machine) :
      Comes on (rounds e body (patience + 1), m) (test e, m)
  | roundBody (e : Expr) (body : Statement) (patience : Nat) {m m₁ : Machine}
      (ht : e.test on m = .done true m₁) :
      Comes on (rounds e body (patience + 1), m) (statement body, m₁)
  | nextRound (e : Expr) (body : Statement) (patience : Nat) {m m₁ m₂ : Machine}
      (ht : e.test on m = .done true m₁) (hb : body.exec on m₁ = .done () m₂) :
      Comes on (rounds e body (patience + 1), m) (rounds e body patience, m₂)
  | first (s : Statement) (rest : Statements) (m : Machine) :
      Comes on (statements (.cons s rest), m) (statement s, m)
  | next (s : Statement) (rest : Statements) {m m₁ : Machine} (hs : s.exec on m = .done () m₁) :
      Comes on (statements (.cons s rest), m) (statements rest, m₁)
  | start (body : Statements) {m m₁ : Machine} (hn : push .null m = .done () m₁) :
      Comes on (program body, m) (statements body, m₁)

/-- Evaluation gets from one site to another, perhaps by way of others. -/
def Reaches (on : Surroundings) : Site × Machine → Site × Machine → Prop :=
  Relation.ReflTransGen (Comes on)

/-- The form at a site, if the evaluator has no rule for it. -/
def unknown? : Site → Option Form
  | expr .other => some .expression
  | expr .specialCall => some .specialCall
  | elements (.spread _) => some .spreadElement
  | args (.spread _) => some .spreadArgument
  | properties (.keyed .other _ _) _ => some .computedKey
  | properties (.spread _) _ => some .objectSpread
  | properties (.other _) _ => some .objectProperty
  | key .hidden => some .privateName
  | target .other => some .assignmentTarget
  | place (.name _) | place (.member _ _) | place (.paren _) => none
  | place _ => some .updateTarget
  | assignment _ .other => some .assignmentOperator
  | unary .invert | unary .discard | unary .delete => some .unaryOperator
  | declarators (.pattern _) => some .destructuring
  | statement .other => some .statement
  | _ => none

/-! ## Faults pass through -/

variable {on : Surroundings} {m m' m'' : Machine} {t t' : Site} {fault : Fault}

/-- A fault at the site that evaluation comes to is a fault at the site that it comes from. -/
theorem Comes.raised (h : Comes on (t, m) (t', m')) (hf : t'.act on m' = .raised fault m'') :
    t.act on m = .raised fault m'' := by
  cases h with
  -- The first part of an expression, and the parts that come after others of it.
  | paren e =>
    rw [act, Expr.eval]
    exact hf
  | array | memberTarget | methodArgs | constructCallee | unaryArg | binaryLeft | logicalLeft =>
    rw [act, Expr.eval]
    exact bind_raised hf
  | object | assignTarget | update =>
    rw [act, Expr.eval]
    exact bind_raised (map_raised.mp hf)
  | memberKey e k he | binaryRight op e r he =>
    rw [act, Expr.eval, bind_done he]
    exact bind_raised hf
  | methodTarget e k items ha =>
    rw [act, Expr.eval, bind_done ha, bind_done (newest_eq _ _)]
    exact bind_raised hf
  | methodKey e k items ha he =>
    rw [act, Expr.eval, bind_done ha, bind_done (newest_eq _ _), bind_done he]
    exact bind_raised hf
  | callArgs callee items _ hp =>
    rw [act, Expr.eval]
    · exact bind_raised hf
    · exact hp
  | callCallee callee items hp ha =>
    rw [act, Expr.eval]
    · rw [bind_done ha, bind_done (newest_eq _ _)]
      exact bind_raised hf
    · exact hp
  | constructArgs callee items he =>
    rw [act, Expr.eval, bind_done he, bind_done (top_eq _)]
    exact bind_raised hf
  | assignValue tg op e ht =>
    rw [act, Expr.eval, bind_done ht]
    exact bind_raised hf
  | assignApply tg op e ht he =>
    rw [act, Expr.eval, bind_done ht, bind_done he]
    exact hf
  | unaryApply op e he =>
    rw [act, Expr.eval, bind_done he]
    exact hf
  | binaryApply op l r hl hr =>
    rw [act, Expr.eval, bind_done hl, bind_done hr]
    exact hf
  | logicalRight op l r hl ht =>
    rw [act, Expr.eval, bind_done hl]
    change (if (m'.world.top.truthy == (op == .both)) = true then _ else _ : Act Unit) m' = _
    rw [if_pos (beq_iff_eq.mpr ht)]
    exact bind_raised hf
  -- Items, properties, keys and places.
  | element e rest | arg e rest =>
    simp only [act, Items.evalElements, Items.evalArgs]
    exact bind_raised hf
  | afterElement e rest he | afterArg e rest he | afterHole rest he | afterArgHole rest he =>
    simp only [act, Items.evalElements, Items.evalArgs]
    exact (bind_done he).trans hf
  | property k e rest keys _ hk =>
    rw [act, map_raised, Properties.eval]
    simp only [hk]
    exact bind_raised hf
  | afterProperty k e rest keys hk he ha =>
    rw [act, map_raised, Properties.eval]
    simp only [hk]
    exact (bind_done he).trans ((bind_done ha).trans (map_raised.mp hf))
  | afterShorthand name rest keys hl ha =>
    rw [act, map_raised, Properties.eval]
    exact (bind_done hl).trans ((bind_done ha).trans (map_raised.mp hf))
  | computedKey e =>
    rw [act, MemberKey.eval]
    exact hf
  | targetOf e k | placeOf e k =>
    simp only [act, map_raised, Target.eval, Expr.evalPlace]
    exact bind_raised hf
  | targetKey e k he | placeKey e k he =>
    simp only [act, map_raised, Target.eval, Expr.evalPlace]
    exact (bind_done he).trans (bind_raised hf)
  | placeParen e =>
    rw [act, map_raised, Expr.evalPlace]
    exact map_raised.mp hf
  -- Statements.
  | initial x e rest =>
    rw [act, Declarators.exec]
    exact bind_raised hf
  | afterInitial x e rest he hd | afterName x rest he hd =>
    rw [act, Declarators.exec]
    exact (bind_done he).trans ((bind_done hd).trans hf)
  | tested e =>
    rw [act, map_raised, Expr.test]
    exact bind_raised hf
  | expression e =>
    rw [act, Statement.exec]
    exact bind_raised hf
  | declaration | block | loop =>
    rw [act, Statement.exec]
    exact hf
  | branchTest | choiceTest =>
    rw [act, Statement.exec]
    exact bind_raised (map_raised.mp hf)
  | branchYes e yes ht | choiceYes e yes no ht | choiceNo e yes no ht =>
    rw [act, Statement.exec]
    exact (bind_done ht).trans hf
  | roundTest e body patience =>
    rw [act, repeatWhile_succ]
    exact bind_raised (map_raised.mp hf)
  | roundBody e body patience ht =>
    rw [act, repeatWhile_succ]
    exact (bind_done ht).trans (bind_raised hf)
  | nextRound e body patience ht hb =>
    rw [act, repeatWhile_succ]
    exact (bind_done ht).trans ((bind_done hb).trans hf)
  | first s rest =>
    rw [act, Statements.exec]
    exact bind_raised hf
  | next s rest hs =>
    rw [act, Statements.exec]
    exact (bind_done hs).trans hf
  | start body hn => exact (bind_done hn).trans hf

/-- A fault at a site that evaluation gets to is the fault of the whole. -/
theorem Reaches.raised (h : Reaches on (t, m) (t', m')) (hf : t'.act on m' = .raised fault m'') :
    t.act on m = .raised fault m'' := by
  suffices hs : ∀ p q : Site × Machine, Reaches on p q →
      q.1.act on q.2 = .raised fault m'' → p.1.act on p.2 = .raised fault m'' from
    hs (t, m) (t', m') h hf
  intro p q hr hq
  induction hr using Relation.ReflTransGen.head_induction_on with
  | refl => exact hq
  | head hc _ ih => exact hc.raised ih

/-- A form that the evaluator has no rule for raises its own fault at once. -/
theorem raised_of_unknown {form : Form} (hu : t.unknown? = some form) (m : Machine) :
    t.act on m = .raised (.unsupported form) m := by
  cases t with
  | expr e =>
    cases e <;> cases hu <;> rw [act, Expr.eval] <;> rfl
  | elements items =>
    cases items <;> cases hu
    rw [act, Items.evalElements]
    rfl
  | args items =>
    cases items <;> cases hu
    rw [act, Items.evalArgs]
    rfl
  | properties ps keys =>
    cases ps with
    | keyed k e rest =>
      cases k <;> cases hu
      rw [act, map_raised, Properties.eval]
      rfl
    | spread rest | other rest =>
      cases hu
      rw [act, map_raised, Properties.eval]
      rfl
    | nil | shorthand => cases hu
  | key k =>
    cases k <;> cases hu
    rw [act, MemberKey.eval]
    rfl
  | target tg =>
    cases tg <;> cases hu
    rw [act, map_raised, Target.eval]
    rfl
  | place e =>
    cases e <;> cases hu <;> rw [act, map_raised] <;> simp only [Expr.evalPlace] <;> rfl
  | assignment p op =>
    cases op <;> cases hu
    rfl
  | unary op =>
    cases op <;> cases hu <;> rfl
  | declarators d =>
    cases d <;> cases hu
    rw [act, Declarators.exec]
    rfl
  | statement s =>
    cases s <;> cases hu
    rw [act, Statement.exec]
    rfl
  | binary | test | statements | rounds | program => cases hu

end Site
end Enclave
