import Enclave.Script.Grammar.Basic

/-!
# Operators

The operators of expressions with their levels, and how a run of operands and operators becomes
one expression: an operator waits until one comes that binds no tighter.
-/
namespace Enclave.Script

/-- An operator between two operands; a higher level binds tighter. -/
structure Operator where
  level : Nat
  mixing : Mixing
  join : Expr → Expr → Expr

def powerLevel : Nat := 12

def Operator.plain (level : Nat) (op : BinaryOp) : Operator :=
  ⟨level, .free, .binary op⟩

def markOperators : List (String × Operator) :=
  [("??", ⟨1, .coalescing, .binary .coalesce⟩), ("||", ⟨2, .logical, .logical .either⟩),
    ("&&", ⟨3, .logical, .logical .both⟩), ("|", .plain 4 .bitOr), ("^", .plain 5 .bitXor),
    ("&", .plain 6 .bitAnd), ("==", .plain 7 .equal), ("!=", .plain 7 .unequal),
    ("===", .plain 7 .equal), ("!==", .plain 7 .unequal), ("<", .plain 8 .less),
    ("<=", .plain 8 .lessEqual), (">", .plain 8 .greater), (">=", .plain 8 .greaterEqual),
    ("<<", .plain 9 .shiftLeft), (">>", .plain 9 .shiftRight),
    (">>>", .plain 9 .shiftRightUnsigned), ("+", .plain 10 .add), ("-", .plain 10 .subtract),
    ("*", .plain 11 .multiply), ("/", .plain 11 .divide), ("%", .plain 11 .remainder),
    ("**", .plain powerLevel .power)]

/-- The operator that a token is, where it may stand. -/
def operator? (ctx : Context) (t : Token) : Option Operator :=
  match t.kind with
  | .mark m => markOperators.lookup m
  | .name _ _ =>
    if t.isWord "in" && ctx.allowIn then some (.plain 8 .contains)
    else if t.isWord "instanceof" then some (.plain 8 .instanceOf)
    else none
  | _ => none

/-- Is the token a mark that stands between operands? -/
def isInfixMark (t : Token) : Bool :=
  match t.kind with
  | .mark m => (markOperators.lookup m).isSome
  | _ => false

def unaryOperators : List (String × UnaryOp) :=
  [("-", .minus), ("+", .plus), ("!", .negate), ("~", .invert), ("typeof", .typeOf),
    ("void", .discard), ("delete", .delete)]

def unaryOperator? (t : Token) : Option UnaryOp :=
  (unaryOperators.find? fun (text, _) => t.isMark text || t.isWord text).map (·.2)

def assignOperators : List (String × AssignOp) :=
  [("=", .set), ("+=", .add), ("-=", .subtract), ("*=", .multiply), ("/=", .other),
    ("%=", .other), ("**=", .other), ("<<=", .other), (">>=", .other), (">>>=", .other),
    ("&=", .other), ("|=", .other), ("^=", .other), ("&&=", .other), ("||=", .other),
    ("??=", .other)]

def assignOperator? (t : Token) : Option AssignOp :=
  (assignOperators.find? fun (text, _) => t.isMark text).map (·.2)

namespace Parsed

/-- An operator between two operands. -/
def joined (left : Parsed) (op : Operator) (right : Parsed) : Option Parsed :=
  if op.mixing = .coalescing && (left.mixing = .logical || right.mixing = .logical) then none
  else if op.mixing = .logical && (left.mixing = .coalescing || right.mixing = .coalescing) then
    none
  else some { expr := op.join left.expr right.expr, mixing := op.mixing }

/-- Joins waiting operands, newest first, whose operators are at a level or above. -/
def settle (level : Nat) :
    List (Parsed × Operator) → Parsed → Option (List (Parsed × Operator) × Parsed)
  | (left, op) :: rest, right =>
    if level ≤ op.level then (left.joined op right).bind (settle level rest)
    else some ((left, op) :: rest, right)
  | [], right => some ([], right)

end Parsed

/-- The level from which waiting operators go first; powers group to the right. -/
def Operator.threshold (op : Operator) : Nat :=
  if op.level = powerLevel then powerLevel + 1 else op.level

end Enclave.Script
