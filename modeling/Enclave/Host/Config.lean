import Enclave.Number.Reading
import Enclave.Text.Blank

/-!
# Engine configuration

The marker in front of a failed closure's message and the largest argument count a closure takes,
with overrides from named settings.
-/
namespace Enclave

structure Config where
  errorMarker : String
  maxArguments : Nat
  deriving DecidableEq, Repr

namespace Config

def default : Config := ⟨"Error: ", 256⟩

def errorMarkerSetting : String := "TETHER_ERROR_MARKER"

def maxArgumentsSetting : String := "TETHER_MAX_ARGUMENTS"

/-- Counts fit a word of 64 bits. -/
def countLimit : Nat := Nat.pow 2 64

/-- A count is ASCII digits after an optional plus sign. -/
def readCount? (text : List Char) : Option Nat :=
  let digits := match text with
    | '+' :: rest => rest
    | _ => text
  if digits.isEmpty || !digits.all Number.isDigit then none
  else
    let n := Number.digitsValue digits
    if n < countLimit then some n else none

/-- Defaults with the settings that are there; a count that cannot be read is passed over. -/
def ofSettings (lookup : String → Option String) : Config :=
  let marker := (lookup errorMarkerSetting).getD default.errorMarker
  let count := (lookup maxArgumentsSetting).bind fun s => readCount? (Text.trim s.toList)
  ⟨marker, count.getD default.maxArguments⟩

def withErrorMarker (c : Config) (marker : String) : Config :=
  { c with errorMarker := marker }

def withMaxArguments (c : Config) (count : Nat) : Config :=
  { c with maxArguments := count }

end Config
end Enclave
