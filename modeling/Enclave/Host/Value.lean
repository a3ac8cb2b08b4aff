import Enclave.Slot
import Enclave.Number.Text
import Enclave.Text.Quoted

/-!
# Host values

A value as the host holds it: a scalar, or a handle with the kind that the host believes it to
have. A held handle is one counted reference.
-/
namespace Enclave

inductive Value where
  | scalar (v : Scalar)
  | handle (kind : Kind) (id : CellId)
  deriving Inhabited

namespace Value

def null : Value :=
  scalar .null

def number (n : Float) : Value :=
  scalar (.number n)

def bool (b : Bool) : Value :=
  scalar (.bool b)

def string (s : String) : Value :=
  scalar (.string s)

def kind : Value → Kind
  | scalar v => v.kind
  | handle k _ => k

def handle? : Value → Option CellId
  | scalar _ => none
  | handle _ id => some id

def isNull : Value → Bool
  | scalar .null => true
  | _ => false

def isHandle (v : Value) : Bool :=
  v.handle?.isSome

/-- Numbers as they are, booleans as one and zero. -/
def toNumber (default : Float) : Value → Float
  | scalar (.number n) => n
  | scalar (.bool b) => if b then 1.0 else 0.0
  | _ => default

/-- Booleans as they are, numbers by whether they are zero. -/
def toBool (default : Bool) : Value → Bool
  | scalar (.bool b) => b
  | scalar (.number n) => n != 0.0
  | _ => default

def string? : Value → Option String
  | scalar (.string s) => some s
  | _ => none

/-- Scalars compare by value; handles are equal when they name one cell under one kind. -/
def beq : Value → Value → Bool
  | scalar a, scalar b => a.strictEq b
  | handle k a, handle l b => k == l && a == b
  | _, _ => false

/-- The slot that owns what the value owns. -/
def slot : Value → Slot
  | scalar v => .scalar v
  | handle _ id => .cell id

/-- The debug form; cells have no printable address. -/
def debug : Value → String
  | scalar .null => "Null"
  | scalar (.number n) => "Number(" ++ Number.debugText n ++ ")"
  | scalar (.bool b) => "Bool(" ++ (if b then "true" else "false") ++ ")"
  | scalar (.string s) => "String(" ++ Text.quoted s ++ ")"
  | handle k _ => "Handle(" ++ k.name ++ " 0x*)"

end Value
end Enclave
