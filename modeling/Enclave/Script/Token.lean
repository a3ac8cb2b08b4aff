import Enclave.Number.Reading
import Enclave.Text.Blank
import Enclave.Text.Identifier

/-!
# Tokens

The lexical grammar of scripts. Tokens are read one at a time from the characters that are left,
since only the grammar knows whether a slash divides or opens a regular expression, where a
template goes on, and in which mode the code around a token is read. Every reader that cannot
recurse on the text takes the room that bounds its steps; the length of the script is enough.
-/
namespace Enclave.Script

/-- How code is read where a token stands. -/
structure Mode where
  strict : Bool
  /-- The code may yield to its caller. -/
  yields : Bool
  /-- The code may wait for a result, or is barred from the word that does. -/
  awaits : Bool

inductive TokenKind where
  /-- A name or keyword; `word` is what the grammar knows it as. The two differ where an escape
  was used: behind a leading escape no word is known, and a known word keeps the text that it was
  written with. -/
  | name (text word : String)
  | privateName (text : String)
  | number (value : Float)
  | bigNumber
  /-- `plain` when the text was written without any escape. -/
  | string (value : String) (plain : Bool)
  /-- A stretch of a template up to its end, or up to an inserted expression. -/
  | template (ends : Bool) (valid : Bool)
  | mark (text : String)
  | finish
  deriving Inhabited

structure Token where
  kind : TokenKind
  /-- A line ended between this token and the one before. -/
  afterLine : Bool
  /-- The characters from the token on. -/
  start : List Char
  /-- The characters after the token. -/
  rest : List Char
  deriving Inhabited

/-! ## Words -/

/-- Words that are never names. -/
def reservedWords : List String :=
  ["break", "case", "catch", "class", "const", "continue", "debugger", "default", "delete", "do",
    "else", "enum", "export", "extends", "false", "finally", "for", "function", "if", "import",
    "in", "instanceof", "new", "null", "return", "super", "switch", "this", "throw", "true", "try",
    "typeof", "var", "void", "while", "with"]

/-- Words that are not names in strict code. -/
def strictWords : List String :=
  ["implements", "interface", "let", "package", "private", "protected", "public", "static"]

/-- Words that the grammar knows in some places and that are names everywhere. -/
def knownNames : List String :=
  ["abstract", "accessor", "any", "as", "assert", "asserts", "async", "bigint", "boolean",
    "constructor", "declare", "from", "get", "global", "infer", "intrinsic", "is", "keyof", "meta",
    "module", "namespace", "never", "number", "object", "of", "out", "override", "readonly",
    "require", "satisfies", "set", "string", "symbol", "target", "type", "undefined", "unique",
    "unknown", "using"]

/-- May a word not be used as a name here? -/
def Mode.reserves (mode : Mode) (word : String) : Bool :=
  reservedWords.contains word || (mode.strict && strictWords.contains word) ||
    ((mode.strict || mode.yields) && word == "yield") ||
    ((mode.strict || mode.awaits) && word == "await")

def isKnownWord (word : String) : Bool :=
  reservedWords.contains word || strictWords.contains word || knownNames.contains word ||
    word == "yield" || word == "await"

/-! ## Blanks and comments -/

def isLineEnd (c : Char) : Bool :=
  c == '\n' || c == '\r' || c == '\u2028' || c == '\u2029'

def isSpace (c : Char) : Bool :=
  c == '\u200B' || c == '\uFEFF' || Text.isBlank c

inductive Skipping where
  | blank
  | line
  | block

/-- Skips blanks and comments. Says whether a line ended on the way; a comment that is not closed
is an error. An arrow of dashes at the front of a line is a comment like two slashes. -/
def skipBlanks : Skipping → (afterLine : Bool) → List Char → Option (Bool × List Char)
  | .block, _, [] => none
  | _, l, [] => some (l, [])
  | .block, l, '*' :: '/' :: rest => skipBlanks .blank l rest
  | .block, l, c :: rest => skipBlanks .block (l || isLineEnd c) rest
  | .line, l, c :: rest =>
    if isLineEnd c then skipBlanks .blank true rest else skipBlanks .line l rest
  | .blank, l, '/' :: '/' :: rest => skipBlanks .line l rest
  | .blank, l, '/' :: '*' :: rest => skipBlanks .block l rest
  | .blank, l, '<' :: '!' :: '-' :: '-' :: rest => skipBlanks .line l rest
  | .blank, true, '-' :: '-' :: '>' :: rest => skipBlanks .line true rest
  | .blank, l, c :: rest =>
    if isLineEnd c then skipBlanks .blank true rest
    else if isSpace c then skipBlanks .blank l rest
    else some (l, c :: rest)

/-! ## Escapes -/

/-- Why an escape stands for nothing. A tagged template forgives only the first. -/
inductive EscapeFault where
  | broken
  | separator

/-- What was read, with the characters after it. -/
abbrev Escaped (α : Type) := Except EscapeFault (α × List Char)

def hexDigit? (c : Char) : Option Nat :=
  if '0' ≤ c && c ≤ '9' then some (c.toNat - '0'.toNat)
  else if 'a' ≤ c && c ≤ 'f' then some (c.toNat - 'a'.toNat + 10)
  else if 'A' ≤ c && c ≤ 'F' then some (c.toNat - 'A'.toNat + 10)
  else none

/-- Exactly `n` hex digits, with an underscore allowed in front of each. -/
def hexDigits : (n : Nat) → (sum : Nat) → List Char → Escaped Nat
  | 0, sum, rest => .ok (sum, rest)
  | n + 1, sum, '_' :: c :: rest =>
    match hexDigit? c with
    | some d => hexDigits n (16 * sum + d) rest
    | none => .error .separator
  | _ + 1, _, ['_'] => .error .separator
  | n + 1, sum, c :: rest =>
    match hexDigit? c with
    | some d => hexDigits n (16 * sum + d) rest
    | none => .error .broken
  | _ + 1, _, [] => .error .broken

def isHighHalf (n : Nat) : Bool :=
  0xD800 ≤ n && n < 0xDC00

def isLowHalf (n : Nat) : Bool :=
  0xDC00 ≤ n && n < 0xE000

def isHalf (n : Nat) : Bool :=
  isHighHalf n || isLowHalf n

/-- The largest code point. -/
def lastCodePoint : Nat := 0x10FFFF

/-- Hex digits up to a closing brace that name a code point. A half of a pair has four digits. -/
def bracedDigits : (count : Nat) → (sum : Nat) → List Char → Escaped Nat
  | count, sum, '\x7d' :: rest =>
    if count == 0 || lastCodePoint < sum || (isHalf sum && count != 4) then .error .broken
    else .ok (sum, rest)
  | count, sum, '_' :: c :: rest =>
    match hexDigit? c with
    | some d => bracedDigits (count + 1) (min (16 * sum + d) (lastCodePoint + 1)) rest
    | none => .error .separator
  | _, _, ['_'] => .error .separator
  | count, sum, c :: rest =>
    match hexDigit? c with
    | some d => bracedDigits (count + 1) (min (16 * sum + d) (lastCodePoint + 1)) rest
    | none => .error .broken
  | _, _, [] => .error .broken

/-- The code point of an escape, after its backslash and `u`. -/
def codePoint : List Char → Escaped Nat
  | '\x7b' :: rest => bracedDigits 0 0 rest
  | rest => hexDigits 4 0 rest

def joinHalves (high low : Nat) : Char :=
  Char.ofNat (0x10000 + (high - 0xD800) * 1024 + (low - 0xDC00))

/-- The character of an escape, after its backslash and `u`. A high half and an escaped low half
behind it are one character, and any other half is a replacement character; the escape behind a
high half has no braces in any case. -/
def escapedChar (text : List Char) : Escaped Char :=
  match codePoint text with
  | .error fault => .error fault
  | .ok (n, rest) =>
    if isHighHalf n then
      match rest with
      | '\\' :: 'u' :: more =>
        (hexDigits 4 0 more).map fun (m, left) =>
          if isLowHalf m then (joinHalves n m, left) else ('\uFFFD', rest)
      | _ => .ok ('\uFFFD', rest)
    else .ok (if isLowHalf n then '\uFFFD' else Char.ofNat n, rest)

/-! ## Names -/

/-- The characters of a name, and whether any was escaped. An escape may stand for any character
that a name goes on with, also at its front. -/
def readName (room : Nat) (first : Bool) (text : List Char) :
    Option (List Char × Bool × List Char) :=
  match room, text with
  | 0, _ => none
  | room + 1, '\\' :: 'u' :: rest =>
    match codePoint rest with
    | .ok (n, tail) =>
      if Text.isNamePart (Char.ofNat n) then
        (readName room false tail).map fun (cs, _, left) => (Char.ofNat n :: cs, true, left)
      else none
    | .error _ => none
  | _, '\\' :: _ => none
  | room + 1, c :: rest =>
    if (if first then Text.isNameStart c else Text.isNamePart c) then
      (readName room false rest).map fun (cs, escaped, left) => (c :: cs, escaped, left)
    else if first then none
    else some ([], false, c :: rest)
  | _, [] => if first then none else some ([], false, [])

/-- A name that has been read from a text. -/
def nameKind (mode : Mode) (text : List Char) (cs : List Char) (escaped : Bool)
    (left : List Char) : Option TokenKind :=
  let word := String.ofList cs
  if text.head? == some '\\' then some (.name word "")
  else if escaped && isKnownWord word then
    if mode.reserves word then none
    else some (.name (String.ofList (text.take (text.length - left.length))) word)
  else some (.name word word)

def readWord (mode : Mode) (room : Nat) (text : List Char) : Option (TokenKind × List Char) := do
  let (cs, escaped, left) ← readName room true text
  let kind ← nameKind mode text cs escaped left
  some (kind, left)

def startsName : List Char → Bool
  | c :: _ => c == '\\' || Text.isNameStart c
  | [] => false

/-- A number sign, together with the name right behind it if there is one. -/
def readPrivate (mode : Mode) (room : Nat) (rest : List Char) : Option (TokenKind × List Char) :=
  if startsName rest then
    (readWord mode room rest).map fun (kind, left) =>
      match kind with
      | .name text _ => (.privateName text, left)
      | _ => (.mark "#", rest)
  else some (.mark "#", rest)

/-! ## Numbers -/

/-- Digits, with an underscore allowed in front of each. -/
def readDigits (isDigit : Char → Bool) : List Char → Option (List Char × List Char)
  | '_' :: c :: rest =>
    if isDigit c then (readDigits isDigit rest).map fun (ds, left) => (c :: ds, left) else none
  | ['_'] => none
  | c :: rest =>
    if isDigit c then (readDigits isDigit rest).map fun (ds, left) => (c :: ds, left)
    else some ([], c :: rest)
  | [] => some ([], [])

/-- No name may begin right after a number. -/
def endNumber (value : Float) (rest : List Char) : Option (TokenKind × List Char) :=
  if rest.head?.any Text.isNameStart then none else some (.number value, rest)

/-- A whole number in a base that is a power of two, each digit rounded in as it comes. -/
def baseValue (base : Float) (ds : List Char) : Float :=
  ds.foldl (fun sum c => sum * base + Number.ofWhole ((hexDigit? c).getD 0)) 0.0

def readBase (base : Nat) (rest : List Char) : Option (TokenKind × List Char) := do
  let (ds, left) ← readDigits (fun c => (hexDigit? c).any (· < base)) rest
  if ds.isEmpty then none
  else
    match left with
    | 'n' :: more => some (.bigNumber, more)
    | _ => endNumber (baseValue (Number.ofWhole base) ds) left

/-- The exponent of a decimal, if there is one. -/
def readPower (text : List Char) : Option (Int × List Char) :=
  match text with
  | c :: rest =>
    if c == 'e' || c == 'E' then do
      let (negative, body) := Number.splitSign rest
      let (ds, left) ← readDigits Number.isDigit body
      if ds.isEmpty then none
      else
        let n : Int := Number.digitsValue ds
        some (if negative then -n else n, left)
    else some (0, text)
  | [] => some (0, text)

/-- The part of a decimal after its whole digits. -/
def readFraction (whole : List Char) (text : List Char) : Option (TokenKind × List Char) := do
  let (places, left) ← match text with
    | '.' :: rest => readDigits Number.isDigit rest
    | _ => some ([], text)
  let (power, left) ← readPower left
  endNumber (Number.nearest (Number.digitsValue (whole ++ places)) (power - places.length)) left

def isOctal (c : Char) : Bool :=
  '0' ≤ c && c ≤ '7'

/-- A number that begins with a decimal digit. Behind a leading zero, which strict code refuses,
the digits are octal if all of them are. -/
def readDecimal (strict : Bool) (text : List Char) : Option (TokenKind × List Char) := do
  let (ds, left) ← readDigits Number.isDigit text
  match left with
  | 'n' :: more => some (.bigNumber, more)
  | _ =>
    if ds.length ≤ 1 || ds.head? != some '0' then readFraction ds left
    else if strict then none
    else if ds.all isOctal then endNumber (baseValue 8.0 ds) left
    else readFraction ds left

/-- A number that begins with a digit. -/
def readNumber (strict : Bool) (text : List Char) : Option (TokenKind × List Char) :=
  match text with
  | '0' :: c :: rest =>
    if c == 'x' || c == 'X' then readBase 16 rest
    else if c == 'o' || c == 'O' then readBase 8 rest
    else if c == 'b' || c == 'B' then readBase 2 rest
    else readDecimal strict text
  | _ => readDecimal strict text

/-! ## Strings -/

/-- Up to `n` further octal digits, as long as the value stays below 256. -/
def octalEscape : (n : Nat) → (sum : Nat) → List Char → Nat × List Char
  | n + 1, sum, c :: rest =>
    if isOctal c && 8 * sum + (c.toNat - '0'.toNat) < 256 then
      octalEscape n (8 * sum + (c.toNat - '0'.toNat)) rest
    else (sum, c :: rest)
  | _, sum, rest => (sum, rest)

/-- What an escape stands for, after its backslash; a continued line stands for nothing. Octal
escapes are `allowed` in texts outside of strict code, and a zero by itself is none of them. -/
def readEscape (allowed : Bool) (text : List Char) : Escaped (List Char) :=
  match text with
  | [] => .error .broken
  | 'n' :: rest => .ok (['\n'], rest)
  | 't' :: rest => .ok (['\t'], rest)
  | 'r' :: rest => .ok (['\r'], rest)
  | 'b' :: rest => .ok (['\x08'], rest)
  | 'v' :: rest => .ok (['\x0b'], rest)
  | 'f' :: rest => .ok (['\x0c'], rest)
  | 'x' :: rest => (hexDigits 2 0 rest).map fun (n, left) => ([Char.ofNat n], left)
  | 'u' :: rest => (escapedChar rest).map fun (c, left) => ([c], left)
  | '\r' :: '\n' :: rest => .ok ([], rest)
  | c :: rest =>
    if c == '0' && !rest.head?.any isOctal then .ok (['\x00'], rest)
    else if isOctal c then
      let (n, left) := octalEscape 2 (c.toNat - '0'.toNat) rest
      if allowed then .ok ([Char.ofNat n], left) else .error .broken
    else if isLineEnd c then .ok ([], rest)
    else .ok ([c], rest)

/-- The rest of a literal after its opening quote. -/
def readString (strict : Bool) (room : Nat) (quote : Char) (text : List Char) :
    Option (List Char × Bool × List Char) :=
  match room, text with
  | 0, _ => none
  | _, [] => none
  | room + 1, c :: rest =>
    if c == quote then some ([], true, rest)
    else if c == '\\' then
      match readEscape (!strict) rest with
      | .ok (cs, left) => do
        let (more, _, tail) ← readString strict room quote left
        some (cs ++ more, false, tail)
      | .error _ => none
    else if c == '\n' || c == '\r' then none
    else do
      let (more, plain, tail) ← readString strict room quote rest
      some (c :: more, plain, tail)

/-! ## Templates and regular expressions -/

/-- A stretch of a template: whether it ends the template, and whether its escapes are valid. A
broken escape only spoils the stretch. -/
def readTemplate (room : Nat) (text : List Char) : Option (Bool × Bool × List Char) :=
  match room, text with
  | 0, _ => none
  | _, [] => none
  | _, '\x60' :: rest => some (true, true, rest)
  | _, '$' :: '\x7b' :: rest => some (false, true, rest)
  | room + 1, '\\' :: rest =>
    match readEscape false rest with
    | .ok (_, left) => readTemplate room left
    | .error .broken =>
      (readTemplate room (rest.drop 1)).map fun (ends, _, tail) => (ends, false, tail)
    | .error .separator => none
  | room + 1, _ :: rest => readTemplate room rest

/-- The body of a regular expression up to the slash that closes it on its line. -/
def readRegexBody : (inClass : Bool) → List Char → Option (List Char)
  | _, [] => none
  | inClass, '\\' :: c :: rest =>
    if c == '\n' || c == '\r' then none else readRegexBody inClass rest
  | inClass, c :: rest =>
    if c == '\n' || c == '\r' then none
    else if c == '/' && !inClass then some rest
    else readRegexBody (if c == '[' then true else if c == ']' then false else inClass) rest

/-- Flags are known letters, each at most once. -/
def areFlags (flags : List Char) : Bool :=
  flags.all (fun c => "dgimsuvy".toList.contains c && flags.count c == 1)

def readRegex (room : Nat) (text : List Char) : Option (List Char) := do
  let rest ← readRegexBody false text
  if rest.head?.any Text.isNameStart then do
    let (flags, _, left) ← readName room true rest
    if areFlags flags then some left else none
  else some rest

/-! ## Marks -/

/-- All punctuation, longer marks before their beginnings. -/
def marks : List String :=
  [">>>=", "...", "===", "!==", "**=", "<<=", ">>=", ">>>", "&&=", "||=", "??=", "=>", "==",
    "!=", "<=", ">=", "&&", "||", "??", "++", "--", "+=", "-=", "*=", "/=", "%=", "&=",
    "|=", "^=", "<<", ">>", "**", "\x7b", "\x7d", "(", ")", "[", "]", ";", ",", "<", ">", "+",
    "-", "*", "/", "%", "&", "|", "^", "!", "~", "?", ":", "=", "."]

/-- What is left of a text after a beginning. -/
def after? : List Char → List Char → Option (List Char)
  | [], text => some text
  | a :: as, c :: cs => if a == c then after? as cs else none
  | _ :: _, [] => none

def readMark (text : List Char) : Option (TokenKind × List Char) :=
  marks.findSome? fun mark => (after? mark.toList text).map fun rest => (.mark mark, rest)

/-! ## The next token -/

def readKind (mode : Mode) (room : Nat) (text : List Char) : Option (TokenKind × List Char) :=
  match text with
  | [] => some (.finish, [])
  | '\x22' :: rest =>
    (readString mode.strict room '\x22' rest).map fun (cs, plain, left) =>
      (.string (String.ofList cs) plain, left)
  | '\x27' :: rest =>
    (readString mode.strict room '\x27' rest).map fun (cs, plain, left) =>
      (.string (String.ofList cs) plain, left)
  | '\x60' :: rest =>
    (readTemplate room rest).map fun (ends, valid, left) => (.template ends valid, left)
  | '#' :: rest => readPrivate mode room rest
  | '.' :: c :: _ => if Number.isDigit c then readFraction [] text else readMark text
  | c :: _ =>
    if Number.isDigit c then readNumber mode.strict text
    else if c == '\\' || Text.isNameStart c then readWord mode room text
    else readMark text

/-- The token after what has been read; `afterLine` when that ended a line. -/
def nextToken (mode : Mode) (room : Nat) (afterLine : Bool) (text : List Char) : Option Token := do
  let (line, start) ← skipBlanks .blank afterLine text
  let (kind, rest) ← readKind mode room start
  some ⟨kind, line, start, rest⟩

end Enclave.Script
