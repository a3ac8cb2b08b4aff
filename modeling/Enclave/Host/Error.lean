import Enclave.Kind
import Enclave.Text.Quoted

/-!
# Host errors

What can go wrong on the host's side of the boundary, and how a closure can fail. Each cause is a
constructor; the wording is in one function for each type.
-/
namespace Enclave

/-- Why a record is not a value. -/
inductive Defect where
  | unknownCode
  | missingText
  | brokenText
  | missingHandle
  | negativeCount
  | tooManyArguments
  | missingArguments
  deriving DecidableEq, Repr

/-- Which operation the runtime turned down. -/
inductive Operation where
  | register
  | declare
  | farIndex
  | arrayGet
  | arraySet
  | arrayPush
  | objectGet
  | objectSet
  | addMethod
  | argumentCount
  | functionCall
  deriving DecidableEq, Repr

inductive HostError where
  | kindMismatch (expected found : Kind)
  | emptyView (kind : Kind)
  | interiorZero (text : String)
  | emptyName
  | unavailable
  | malformed (defect : Defect)
  | rejected (operation : Operation)
  deriving DecidableEq, Repr

def Defect.message : Defect → String
  | unknownCode => "unknown kind discriminant"
  | missingText => "null string payload"
  | brokenText => "string payload is not UTF-8"
  | missingHandle => "null handle payload"
  | negativeCount => "negative argument count"
  | tooManyArguments => "too many arguments"
  | missingArguments => "null argument array"

def Operation.message : Operation → String
  | register => "register"
  | declare => "declare"
  | farIndex => "array index beyond i32"
  | arrayGet => "array get"
  | arraySet => "array set"
  | arrayPush => "array push"
  | objectGet => "object get"
  | objectSet => "object set"
  | addMethod => "add method"
  | argumentCount => "argument count"
  | functionCall => "function call"

def HostError.message : HostError → String
  | kindMismatch expected found => "expected " ++ expected.name ++ " value, found " ++ found.name
  | emptyView kind => "write through an empty " ++ kind.name ++ " view"
  | interiorZero text => "interior NUL in " ++ Text.quoted text
  | emptyName => "registration name is empty"
  | unavailable => "runtime unavailable"
  | malformed defect => "malformed value: " ++ defect.message
  | rejected operation => "runtime rejected " ++ operation.message

/-- How a host closure fails. -/
inductive ClosureError where
  | custom (text : String)
  | argument (index : Nat) (reason : String)
  | host (error : HostError)
  deriving DecidableEq, Repr

def ClosureError.message : ClosureError → String
  | custom text => text
  | argument index reason => "argument " ++ toString index ++ ": " ++ reason
  | host error => error.message

end Enclave
