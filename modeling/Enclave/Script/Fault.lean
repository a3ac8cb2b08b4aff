import Enclave.Kind

/-!
# Script faults

Why a script stops: it is not a script, it names something unbound, it treats a value as what it
is not, or it reaches a form that the evaluator does not know.
-/
namespace Enclave

/-- The forms that parse but are not evaluated. -/
inductive Form where
  | statement
  | destructuring
  | expression
  | spreadElement
  | objectSpread
  | computedKey
  | objectProperty
  | specialCall
  | spreadArgument
  | privateName
  | assignmentTarget
  | assignmentOperator
  | updateTarget
  | unaryOperator
  deriving DecidableEq, Repr

def Form.message : Form → String
  | statement => "statement"
  | destructuring => "destructuring declaration"
  | expression => "expression"
  | spreadElement => "spread element"
  | objectSpread => "object spread"
  | computedKey => "computed key"
  | objectProperty => "object property"
  | specialCall => "super or import call"
  | spreadArgument => "spread argument"
  | privateName => "private name"
  | assignmentTarget => "assignment target"
  | assignmentOperator => "assignment operator"
  | updateTarget => "update target"
  | unaryOperator => "unary operator"

inductive Fault where
  | malformed
  | unbound (name : String)
  | notFunction (shown : String)
  | notConstructor (shown : String)
  | readOfNull (name : String)
  | cannotSet (name : String) (kind : Kind)
  | locked (name : String)
  | invalidIndex (name : String)
  | indexOutOfRange (index : Nat)
  | unsupported (form : Form)
  deriving DecidableEq, Repr

def Fault.message : Fault → String
  | malformed => "SyntaxError"
  | unbound name => "ReferenceError: " ++ name ++ " is not defined"
  | notFunction shown => "TypeError: " ++ shown ++ " is not a function"
  | notConstructor shown => "TypeError: " ++ shown ++ " is not a constructor"
  | readOfNull name => "TypeError: cannot read property '" ++ name ++ "' of null"
  | cannotSet name kind => "TypeError: cannot set property '" ++ name ++ "' of " ++ kind.name
  | locked name => "TypeError: '" ++ name ++ "' is being accessed"
  | invalidIndex name => "TypeError: invalid array index '" ++ name ++ "'"
  | indexOutOfRange index =>
    "TypeError: array index " ++ toString index ++ " is out of range"
  | unsupported form => "unsupported syntax: " ++ form.message

end Enclave
