import Enclave.Number.Shortest

/-!
# Number text

Two written forms of a double. Both are positional at every size; they differ in the infinities
and in the sign of zero.
-/
namespace Enclave.Number

def zeros (n : Nat) : List Char :=
  List.replicate n '0'

namespace Decimal

/-- Digits with a point where the exponent puts it, and never an exponent mark. -/
def positional (d : Decimal) : List Char :=
  let digits := digitsOf d.digits
  let before := (digits.length : Int) + d.exponent
  if before ≤ 0 then '0' :: '.' :: (zeros (-before).toNat ++ digits)
  else if 0 ≤ d.exponent then digits ++ zeros d.exponent.toNat
  else digits.take before.toNat ++ '.' :: digits.drop before.toNat

end Decimal

def signed (negative : Bool) (text : List Char) : String :=
  String.ofList (if negative then '-' :: text else text)

/-- The text a script sees: whole numbers below `10 ^ 21` digit by digit, zero without a sign,
anything else by its fewest digits. -/
def text (x : Float) : String :=
  match Parts.ofFloat x with
  | .nan => "NaN"
  | .infinite negative => if negative then "-Infinity" else "Infinity"
  | .finite negative m q =>
    match wholeOf? m q with
    | some n =>
      if n < Nat.pow 10 21 then signed (negative && n != 0) (digitsOf n)
      else signed negative (shortest m q).positional
    | none => signed negative (shortest m q).positional

/-- The text in debug forms, which keeps the sign of zero. -/
def debugText (x : Float) : String :=
  match Parts.ofFloat x with
  | .nan => "NaN"
  | .infinite negative => if negative then "-inf" else "inf"
  | .finite negative m q =>
    if m = 0 then signed negative ['0'] else signed negative (shortest m q).positional

end Enclave.Number
