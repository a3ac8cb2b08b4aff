/-!
# Key lists

The keys of an object cross the boundary as one text: a bracketed list of quoted strings. Writing
uses the short escapes and `\u00XX` for the remaining control characters. Reading accepts every
escape, never fails, and stops at the first thing that is not part of a list.
-/
namespace Enclave.Text.KeyList

def hexDigit (n : Nat) : Char :=
  "0123456789abcdef".toList.getD n '0'

def writeChar (c : Char) : List Char :=
  match c with
  | '\x22' => ['\\', '\x22']
  | '\\' => ['\\', '\\']
  | '\n' => ['\\', 'n']
  | '\r' => ['\\', 'r']
  | '\t' => ['\\', 't']
  | '\x08' => ['\\', 'b']
  | '\x0c' => ['\\', 'f']
  | _ =>
    if c.toNat < 32 then ['\\', 'u', '0', '0', hexDigit (c.toNat / 16), hexDigit (c.toNat % 16)]
    else [c]

def writeKey (key : String) : List Char :=
  '\x22' :: (key.toList.flatMap writeChar ++ ['\x22'])

def write (keys : List String) : String :=
  String.ofList ('[' :: (List.intercalate [','] (keys.map writeKey) ++ [']']))

def isBlank (c : Char) : Bool :=
  c == ' ' || c == '\t' || c == '\r' || c == '\n'

def hexValue? (c : Char) : Option Nat :=
  if '0' ≤ c && c ≤ '9' then some (c.toNat - '0'.toNat)
  else if 'a' ≤ c && c ≤ 'f' then some (c.toNat - 'a'.toNat + 10)
  else if 'A' ≤ c && c ≤ 'F' then some (c.toNat - 'A'.toNat + 10)
  else none

/-- Four hex digits at the front, all or nothing. -/
def hex4? : List Char → Option (Nat × List Char)
  | a :: b :: c :: d :: rest => do
    let a ← hexValue? a
    let b ← hexValue? b
    let c ← hexValue? c
    let d ← hexValue? d
    pure (((a * 16 + b) * 16 + c) * 16 + d, rest)
  | _ => none

def isHighSurrogate (n : Nat) : Bool :=
  0xD800 ≤ n && n < 0xDC00

def isLowSurrogate (n : Nat) : Bool :=
  0xDC00 ≤ n && n < 0xE000

def joinSurrogates (high low : Nat) : Char :=
  Char.ofNat (0x10000 + (high - 0xD800) * 1024 + (low - 0xDC00))

/-- A code unit on its own; half of a pair stands for no character. -/
def loneUnit (n : Nat) : Char :=
  if isHighSurrogate n || isLowSurrogate n then '\uFFFD' else Char.ofNat n

/-- The second half of a pair, written as an escape of its own. -/
def lowEscape? : List Char → Option (Nat × List Char)
  | '\\' :: 'u' :: rest =>
    match hex4? rest with
    | some (low, tail) => if isLowSurrogate low then some (low, tail) else none
    | none => none
  | _ => none

/-- The character after `\u`, and what follows it. Broken digits are left to be read as text. -/
def readUnit (text : List Char) : Char × List Char :=
  match hex4? text with
  | none => ('\uFFFD', text)
  | some (unit, rest) =>
    if isHighSurrogate unit then
      match lowEscape? rest with
      | some (low, tail) => (joinSurrogates unit low, tail)
      | none => (loneUnit unit, rest)
    else (loneUnit unit, rest)

def unescape : Char → Char
  | 'n' => '\n'
  | 'r' => '\r'
  | 't' => '\t'
  | 'b' => '\x08'
  | 'f' => '\x0c'
  | c => c

theorem length_of_hex4? {text rest : List Char} {n : Nat} (h : hex4? text = some (n, rest)) :
    rest.length < text.length := by
  unfold hex4? at h
  split at h
  · simp only [Option.bind_eq_bind, Option.bind_eq_some_iff, Option.pure_def,
      Option.some.injEq, Prod.mk.injEq] at h
    obtain ⟨_, _, _, _, _, _, _, _, _, rfl⟩ := h
    simp only [List.length_cons]
    omega
  · cases h

theorem length_of_lowEscape? {text rest : List Char} {n : Nat}
    (h : lowEscape? text = some (n, rest)) : rest.length < text.length := by
  unfold lowEscape? at h
  split at h
  · split at h
    · rename_i hex
      split at h
      · simp only [Option.some.injEq, Prod.mk.injEq] at h
        obtain ⟨_, rfl⟩ := h
        have := length_of_hex4? hex
        simp only [List.length_cons]
        omega
      · cases h
    · cases h
  · cases h

theorem length_readUnit_le (text : List Char) : (readUnit text).2.length ≤ text.length := by
  unfold readUnit
  split
  · simp
  · rename_i hex
    have := length_of_hex4? hex
    split
    · split
      · rename_i low
        have := length_of_lowEscape? low
        simp only
        omega
      · simp only
        omega
    · simp only
      omega

/-- The body of a string after its opening quote: its characters, and what follows the closing
quote if there is one. -/
def readBody (text : List Char) : List Char × Option (List Char) :=
  match text with
  | [] => ([], none)
  | '\x22' :: rest => ([], some rest)
  | ['\\'] => ([], none)
  | '\\' :: 'u' :: rest =>
    let unit := readUnit rest
    let body := readBody unit.2
    (unit.1 :: body.1, body.2)
  | '\\' :: c :: rest =>
    let body := readBody rest
    (unescape c :: body.1, body.2)
  | c :: rest =>
    let body := readBody rest
    (c :: body.1, body.2)
termination_by text.length
decreasing_by
  · have := length_readUnit_le rest
    simp only [List.length_cons]
    omega
  · simp only [List.length_cons]
    omega
  · simp only [List.length_cons]
    omega

theorem length_readBody_le {text rest : List Char} (h : (readBody text).2 = some rest) :
    rest.length < text.length := by
  fun_induction readBody text with
  | case1 => cases h
  | case2 tail =>
    cases h
    simp
  | case3 => cases h
  | case4 tail unit body ih =>
    have := ih h
    have : unit.2.length ≤ tail.length := length_readUnit_le tail
    simp only [List.length_cons]
    omega
  | case5 c tail _ body ih =>
    have := ih h
    simp only [List.length_cons]
    omega
  | case6 c tail _ _ _ _ body ih =>
    have := ih h
    simp only [List.length_cons]
    omega

theorem length_dropWhile_le (p : Char → Bool) (text : List Char) :
    (text.dropWhile p).length ≤ text.length :=
  (List.dropWhile_sublist p).length_le

/-- A string at the front of a list's items, and what follows the comma after it, if there is
one. -/
def readItem? (text : List Char) : Option (String × Option (List Char)) :=
  match text.dropWhile isBlank with
  | '\x22' :: rest =>
    let body := readBody rest
    let next := body.2.bind fun tail =>
      match tail.dropWhile isBlank with
      | ',' :: more => some more
      | _ => none
    some (String.ofList body.1, next)
  | _ => none

theorem length_of_readItem? {text rest : List Char} {key : String}
    (h : readItem? text = some (key, some rest)) : rest.length < text.length := by
  unfold readItem? at h
  split at h
  · rename_i tail hopen
    simp only [Option.some.injEq, Prod.mk.injEq, Option.bind_eq_some_iff] at h
    obtain ⟨_, after, hafter, hcomma⟩ := h
    split at hcomma
    · rename_i more hmore
      cases hcomma
      have h1 := length_readBody_le hafter
      have h2 := length_dropWhile_le isBlank text
      have h3 := length_dropWhile_le isBlank after
      rw [hopen] at h2
      rw [hmore] at h3
      simp only [List.length_cons] at h2 h3
      omega
    · cases hcomma
  · cases h

/-- Strings up to the first thing that is neither a string nor a comma in its place. -/
def readItems (text : List Char) : List String :=
  match h : readItem? text with
  | none => []
  | some (key, none) => [key]
  | some (key, some rest) =>
    have := length_of_readItem? h
    key :: readItems rest
termination_by text.length

def read (text : String) : List String :=
  match text.toList.dropWhile isBlank with
  | '[' :: rest => readItems rest
  | _ => []

end Enclave.Text.KeyList
