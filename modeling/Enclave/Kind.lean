/-!
# Kinds

Every value that crosses between the runtime and its host carries a kind. Kinds have a code for
transport and a name for messages; the five handle kinds name a heap cell.
-/
namespace Enclave

inductive Kind where
  | null
  | number
  | bool
  | string
  | array
  | object
  | function
  | classDesc
  | task
  deriving DecidableEq, Repr, Inhabited

namespace Kind

def code : Kind → Int
  | null => 0
  | number => 1
  | bool => 2
  | string => 3
  | array => 4
  | object => 5
  | function => 6
  | classDesc => 7
  | task => 8

/-- Codes come from outside, so a code that no kind has is possible and names nothing. -/
def ofCode? : Int → Option Kind
  | 0 => some null
  | 1 => some number
  | 2 => some bool
  | 3 => some string
  | 4 => some array
  | 5 => some object
  | 6 => some function
  | 7 => some classDesc
  | 8 => some task
  | _ => none

/-- The kinds whose payload lives in a heap cell. -/
def isHandle : Kind → Bool
  | array | object | function | classDesc | task => true
  | null | number | bool | string => false

def name : Kind → String
  | null => "null"
  | number => "number"
  | bool => "bool"
  | string => "string"
  | array => "array"
  | object => "object"
  | function => "function"
  | classDesc => "class"
  | task => "task"

theorem ofCode?_code (k : Kind) : ofCode? k.code = some k := by
  cases k <;> rfl

theorem code_of_ofCode? {c : Int} {k : Kind} (h : ofCode? c = some k) : k.code = c := by
  unfold ofCode? at h
  split at h <;> cases h <;> rfl

end Kind
end Enclave
