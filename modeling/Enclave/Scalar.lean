import Enclave.Kind
import Enclave.Number.Reading
import Enclave.Text.Blank

/-!
# Scalars

The values that own nothing: null, numbers, booleans and text. Both sides of the boundary build
their values from them.
-/
namespace Enclave

inductive Scalar where
  | null
  | number (n : Float)
  | bool (b : Bool)
  | string (s : String)
  deriving Inhabited

namespace Scalar

def kind : Scalar → Kind
  | null => .null
  | number _ => .number
  | bool _ => .bool
  | string _ => .string

/-- Null, zero, not-a-number, `false` and the empty text are false; all else is true. -/
def truthy : Scalar → Bool
  | null => false
  | number n => n != 0.0 && !n.isNaN
  | bool b => b
  | string s => !s.isEmpty

/-- Text reads as the number it spells between blanks; blank text is zero. -/
def toNumber : Scalar → Float
  | null => 0.0
  | number n => n
  | bool b => if b then 1.0 else 0.0
  | string s =>
    let body := Text.trim s.toList
    if body.isEmpty then 0.0 else (Number.read? body).getD Number.notANumber

/-- Same kind and same value. Numbers compare as numbers: zeros are equal, not-a-number is not. -/
def strictEq : Scalar → Scalar → Bool
  | null, null => true
  | number a, number b => a == b
  | bool a, bool b => a == b
  | string a, string b => a == b
  | _, _ => false

end Scalar
end Enclave
