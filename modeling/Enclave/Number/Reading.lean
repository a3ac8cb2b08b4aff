import Enclave.Number.Binary

/-!
# Reading number text

The grammar of number text outside scripts: an optional sign, then digits with an optional point
and exponent, or one of the words `inf`, `infinity` and `nan` in any case. At least one digit
stands beside the point. Nothing else is skipped or accepted.
-/
namespace Enclave.Number

def isDigit (c : Char) : Bool :=
  '0' ≤ c && c ≤ '9'

def digitValue (c : Char) : Nat :=
  c.toNat - '0'.toNat

def digitsValue (ds : List Char) : Nat :=
  ds.foldl (fun n c => 10 * n + digitValue c) 0

def infinity : Float := 1.0 / 0.0

def notANumber : Float := 0.0 / 0.0

/-- The double nearest to `m * 10 ^ e`. Beyond 310 digits before the point every value is
infinite, and below 330 zeros after it every value is zero. -/
def nearest (m : Nat) (e : Int) : Float :=
  let top := (Nat.toDigits 10 m).length + e
  if m = 0 then 0
  else if 310 < top then infinity
  else if top < -330 then 0
  else match e with
    | .ofNat k => Float.ofScientific m false k
    | .negSucc k => Float.ofScientific m true (k + 1)

/-- A sign in front of a text, `true` for minus, and the text after it. -/
def splitSign : List Char → Bool × List Char
  | '-' :: rest => (true, rest)
  | '+' :: rest => (false, rest)
  | text => (false, text)

/-- The exponent part; nothing at all is the exponent zero. -/
def readExponent? : List Char → Option Int
  | [] => some 0
  | c :: rest =>
    if c = 'e' ∨ c = 'E' then
      let (negative, digits) := splitSign rest
      if digits.isEmpty ∨ ¬ digits.all isDigit then none
      else
        let n : Int := digitsValue digits
        some (if negative then -n else n)
    else none

def readUnsigned? (text : List Char) : Option Float :=
  let whole := text.takeWhile isDigit
  let rest := text.dropWhile isDigit
  let (places, tail) := match rest with
    | '.' :: more => (more.takeWhile isDigit, more.dropWhile isDigit)
    | _ => ([], rest)
  if whole.isEmpty ∧ places.isEmpty then none
  else (readExponent? tail).map fun e => nearest (digitsValue (whole ++ places)) (e - places.length)

def readWord? (text : List Char) : Option Float :=
  let word := text.map Char.toLower
  if word = "inf".toList ∨ word = "infinity".toList then some infinity
  else if word = "nan".toList then some notANumber
  else none

def read? (text : List Char) : Option Float :=
  let (negative, body) := splitSign text
  ((readWord? body).or (readUnsigned? body)).map fun x => if negative then -x else x

end Enclave.Number
