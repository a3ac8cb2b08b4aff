/-!
# Text as bytes

UTF-8 in both directions. Reading goes byte by byte through an automaton that yields a character
or, for each broken run of bytes, a gap; a strict reader refuses gaps and a lossy one fills them.
A byte string handed across the boundary ends before its first zero byte.
-/
namespace Enclave.Text

abbrev Bytes := List UInt8

def byte (n : Nat) : UInt8 :=
  UInt8.ofNat n

def encodeChar (c : Char) : Bytes :=
  let n := c.toNat
  if n < 0x80 then [byte n]
  else if n < 0x800 then [byte (0xC0 + n / 64), byte (0x80 + n % 64)]
  else if n < 0x10000 then
    [byte (0xE0 + n / 4096), byte (0x80 + n / 64 % 64), byte (0x80 + n % 64)]
  else
    [byte (0xF0 + n / 262144), byte (0x80 + n / 4096 % 64), byte (0x80 + n / 64 % 64),
      byte (0x80 + n % 64)]

def encode (text : String) : Bytes :=
  text.toList.flatMap encodeChar

/-- A character under way: how many bytes it still needs, its bits so far, and the bounds of the
next byte. -/
structure Pending where
  need : Nat
  code : Nat
  low : Nat
  high : Nat

/-- The state after a leading byte, or a gap for a byte that leads nothing. The first bounds rule
out overlong forms, surrogates and codes past the last character. -/
def lead (b : Nat) : List (Option Char) × Option Pending :=
  if b < 0x80 then ([some (Char.ofNat b)], none)
  else if b < 0xC2 then ([none], none)
  else if b < 0xE0 then ([], some ⟨1, b - 0xC0, 0x80, 0xBF⟩)
  else if b < 0xF0 then
    ([], some ⟨2, b - 0xE0, if b = 0xE0 then 0xA0 else 0x80, if b = 0xED then 0x9F else 0xBF⟩)
  else if b < 0xF5 then
    ([], some ⟨3, b - 0xF0, if b = 0xF0 then 0x90 else 0x80, if b = 0xF4 then 0x8F else 0xBF⟩)
  else ([none], none)

def advance (state : Option Pending) (b : Nat) : List (Option Char) × Option Pending :=
  match state with
  | none => lead b
  | some p =>
    if p.low ≤ b ∧ b ≤ p.high then
      let code := p.code * 64 + (b - 0x80)
      if p.need = 1 then ([some (Char.ofNat code)], none)
      else ([], some ⟨p.need - 1, code, 0x80, 0xBF⟩)
    else
      let (out, next) := lead b
      (none :: out, next)

def scan (state : Option Pending) : Bytes → List (Option Char)
  | [] => if state.isSome then [none] else []
  | b :: rest =>
    let (out, next) := advance state b.toNat
    out ++ scan next rest

/-- Reading that refuses broken bytes. -/
def decode? (bytes : Bytes) : Option String :=
  ((scan none bytes).mapM id).map String.ofList

/-- Reading that puts a replacement character for each broken run. -/
def decodeLossy (bytes : Bytes) : String :=
  String.ofList ((scan none bytes).map (·.getD '\uFFFD'))

/-- The part of a byte string that the other side sees. -/
def untilZero (bytes : Bytes) : Bytes :=
  bytes.takeWhile (· != 0)

end Enclave.Text
