import Enclave.Proofs.Program.Minding

/-! # Modest scripts

A script that reads no member but `x`, calls none but `inc`, sets none, and declares and assigns to other
names than that of the class, minds the counters whatever its values are. That can be seen from the script.
-/
namespace Enclave

open Act Program

/-- A key that is spelled out, after a dot or in brackets. -/
def MemberKey.spells (s : String) : MemberKey → Bool
  | name x | computed (.string x) => x == s
  | computed _ | hidden => false

mutual

/-- Are all members in the expression the numbers of counters and calls of `inc`, and does the class stay in
its global? -/
def Expr.modest : Expr → Bool
  | .null | .bool _ | .number _ | .string _ | .name _ | .specialCall | .other => true
  | .paren e | .unary _ e => e.modest
  | .array items => items.modest
  | .object properties => properties.modest
  | .member e k => e.modest && k.spells countKey
  | .call (.member e k) .nil => e.modest && k.spells methodName
  | .call (.member _ _) _ => false
  | .call e items => e.modest && items.modest
  | .construct e items => e.modest && items.modest && decide (items.length ≤ Config.default.maxArguments)
  | .assign tg _ e => tg.modest && e.modest
  | .update _ _ e => e.modestPlace
  | .binary _ l r | .logical _ l r => l.modest && r.modest

def Items.modest : Items → Bool
  | .nil | .spread _ => true
  | .item e rest => e.modest && rest.modest
  | .hole rest => rest.modest

def Properties.modest : Properties → Bool
  | .nil | .spread _ | .other _ => true
  | .keyed _ e rest => e.modest && rest.modest
  | .shorthand _ rest => rest.modest

def Target.modest : Target → Bool
  | .name x => x != className
  | .member _ _ => false
  | .other => true

def Expr.modestPlace : Expr → Bool
  | .name x => x != className
  | .member _ _ => false
  | .paren e => e.modestPlace
  | _ => true

end

def Declarators.modest : Declarators → Bool
  | .nil | .pattern _ => true
  | .name x init rest => x != className && init.all Expr.modest && rest.modest

mutual

def Statement.modest : Statement → Bool
  | .expression e => e.modest
  | .declare declarators => declarators.modest
  | .block body => body.modest
  | .branch test yes => test.modest && yes.modest
  | .choice test yes no => test.modest && yes.modest && no.modest
  | .loop test body => test.modest && body.modest
  | .empty | .other => true

def Statements.modest : Statements → Bool
  | .nil => true
  | .cons s rest => s.modest && rest.modest

end

def Location.modest : Location → Bool
  | «global» name => name != className
  | member _ _ => false

/-- Is the site one of a modest script? -/
def Site.modest : Site → Bool
  | expr e | test e => e.modest
  | elements items | args items => items.modest
  | properties ps _ => ps.modest
  | key (.computed e) => e.modest
  | key _ | unary _ | binary _ => true
  | target tg => tg.modest
  | place e => e.modestPlace
  | assignment p _ => p.modest
  | declarators d => d.modest
  | statement s => s.modest
  | statements body | program body => body.modest
  | rounds e body _ => e.modest && body.modest

variable {on : Surroundings} {m m' : Machine}

namespace MemberKey

variable {key : MemberKey} {s : String}

theorem modest_of_spells (hkey : key.spells s = true) : (Site.key key).modest = true := by
  cases key with
  | computed e => cases e <;> first | rfl | cases hkey
  | name | hidden => rfl

theorem eval_spells (hkey : key.spells s = true) (on : Surroundings) :
    key.eval on = push (.string s) := by
  cases key with
  | name x =>
    obtain rfl : x = s := by simpa [spells] using hkey
    rw [MemberKey.eval]
  | computed e =>
    cases e with
    | string x =>
      obtain rfl : x = s := by simpa [spells] using hkey
      rw [MemberKey.eval, Expr.eval]
    | _ => cases hkey
  | hidden => cases hkey

theorem top_of_spells (hkey : key.spells s = true) (hrun : key.eval on m = .done () m') :
    m'.world.top = .scalar (.string s) := by
  rw [eval_spells hkey] at hrun
  cases hrun
  rfl

end MemberKey

theorem Target.modest_of_eval {tg : Target} {p : Location} (htg : tg.modest = true)
    (hrun : tg.eval on m = .done p m') : p.modest = true := by
  cases tg with
  | name x =>
    rw [Target.eval] at hrun
    cases hrun
    exact htg
  | member e k => cases htg
  | other =>
    rw [Target.eval] at hrun
    cases hrun

theorem Expr.modest_of_evalPlace (e : Expr) {p : Location} (he : e.modestPlace = true)
    (hrun : e.evalPlace on m = .done p m') : p.modest = true :=
  match e with
  | .name x => by
    rw [Expr.evalPlace] at hrun
    cases hrun
    exact he
  | .paren e => by
    rw [Expr.evalPlace] at hrun
    exact e.modest_of_evalPlace he hrun
  | .member _ _ => by cases he
  | .null | .bool _ | .number _ | .string _ | .array _ | .object _ | .call _ _ | .specialCall
  | .construct _ _ | .assign _ _ _ | .update _ _ _ | .unary _ _ | .binary _ _ _ | .logical _ _ _
  | .other => by
    simp only [Expr.evalPlace] at hrun
    cases hrun

theorem Location.spared_of_modest {p : Location} (hp : p.modest = true) (m : Machine) : p.Spared m := by
  cases p with
  | «global» name => exact bne_iff_ne.mp hp
  | member target key => cases hp

namespace Site

variable {s s' : Site}

/-- A modest site spares the counters. -/
theorem spares_of_modest (hs : s.modest = true) (m : Machine) : s.Spares on m := by
  cases s with
  | expr e =>
    cases e with
    | member e k =>
      simp only [modest, Expr.modest, Bool.and_eq_true] at hs
      rintro id m₁ m₂ - hkey - -
      exact MemberKey.top_of_spells hs.2 hkey
    | call callee items =>
      cases callee with
      | member e k =>
        cases items with
        | nil =>
          simp only [modest, Expr.modest, Bool.and_eq_true] at hs
          rintro id m₁ m₂ m₃ - - hkey - -
          exact ⟨MemberKey.top_of_spells hs.2 hkey, rfl⟩
        | item | hole | spread => cases hs
      | _ => trivial
    | construct e items =>
      simp only [modest, Expr.modest, Bool.and_eq_true, decide_eq_true_eq] at hs
      exact fun _ _ _ => hs.2
    | update grows returnsNew e =>
      exact fun p m₁ hplace => Location.spared_of_modest (e.modest_of_evalPlace hs hplace) m₁
    | _ => trivial
  | assignment p op => exact Location.spared_of_modest hs m
  | declarators d =>
    cases d with
    | name x init rest =>
      simp only [modest, Declarators.modest, Bool.and_eq_true] at hs
      exact bne_iff_ne.mp hs.1.1
    | nil | pattern => trivial
  | _ => trivial

/-- From a modest site evaluation comes to modest sites. -/
theorem Comes.modest (h : Comes on (s, m) (s', m')) (hs : s.modest = true) : s'.modest = true := by
  cases h with
  | memberKey e k =>
    simp only [Site.modest, Expr.modest, Bool.and_eq_true] at hs
    exact MemberKey.modest_of_spells hs.2
  | methodArgs e k items | methodTarget e k items | methodKey e k items =>
    cases items with
    | nil =>
      simp only [Site.modest, Expr.modest, Bool.and_eq_true] at hs
      first | exact hs.1 | exact MemberKey.modest_of_spells hs.2 | rfl
    | item | hole | spread => cases hs
  | callArgs callee items _ hp | callCallee callee items hp =>
    have hcall : (Expr.call callee items).modest = true := hs
    rw [Expr.modest, Bool.and_eq_true] at hcall
    · first | exact hcall.1 | exact hcall.2
    all_goals exact fun _ _ hmember => absurd hmember (hp _ _)
  | assignApply tg op e hplace =>
    simp only [Site.modest, Expr.modest, Bool.and_eq_true] at hs
    exact Target.modest_of_eval hs.1 hplace
  | _ =>
    simp_all [Site.modest, Expr.modest, Items.modest, Properties.modest, Target.modest, Expr.modestPlace,
      Declarators.modest, Statement.modest, Statements.modest]

/-- Modest scripts mind the counters. -/
theorem minds_of_modest (hs : s.modest = true) (m : Machine) : s.Minds on m := by
  have hall : ∀ q q' : Site × Machine, Reaches on q q' → q.1.modest = true → q'.1.modest = true := by
    intro q q' h hq
    induction h with
    | refl => exact hq
    | tail _ hcomes ih => exact hcomes.modest ih
  exact fun s' m' hreaches => spares_of_modest (hall _ _ hreaches hs) m'

end Site
end Enclave
