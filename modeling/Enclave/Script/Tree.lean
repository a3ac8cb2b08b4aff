/-!
# Script trees

A script as the evaluator sees it. Forms that it evaluates keep their parts; forms that it only
recognises are single constructors. Parentheses are kept, since a parenthesised member is no
method and no assignment target.
-/
namespace Enclave

inductive BinaryOp where
  | add
  | subtract
  | multiply
  | divide
  | remainder
  | equal
  | unequal
  | less
  | lessEqual
  | greater
  | greaterEqual
  | power
  | coalesce
  | bitAnd
  | bitOr
  | bitXor
  | shiftLeft
  | shiftRight
  | shiftRightUnsigned
  | contains
  | instanceOf
  deriving DecidableEq, Repr

inductive LogicalOp where
  | both
  | either
  deriving DecidableEq, Repr

inductive UnaryOp where
  | minus
  | plus
  | negate
  | typeOf
  | invert
  | discard
  | delete
  deriving DecidableEq, Repr

inductive AssignOp where
  | set
  | add
  | subtract
  | multiply
  | other
  deriving DecidableEq, Repr

/-- The key of a property in an object literal; the last form covers computed and big-number
keys. -/
inductive PropertyKey where
  | text (s : String)
  | number (n : Float)
  | other

mutual

inductive Expr where
  | null
  | bool (b : Bool)
  | number (n : Float)
  | string (s : String)
  | name (x : String)
  | paren (e : Expr)
  | array (elements : Items)
  | object (properties : Properties)
  | member (target : Expr) (key : MemberKey)
  | call (callee : Expr) (args : Items)
  | specialCall
  | construct (callee : Expr) (args : Items)
  | assign (target : Target) (op : AssignOp) (value : Expr)
  | update (grows : Bool) (returnsNew : Bool) (arg : Expr)
  | unary (op : UnaryOp) (arg : Expr)
  | binary (op : BinaryOp) (left right : Expr)
  | logical (op : LogicalOp) (left right : Expr)
  | other

/-- The elements of an array literal, or the arguments of a call, in order. -/
inductive Items where
  | nil
  | item (e : Expr) (rest : Items)
  | hole (rest : Items)
  | spread (rest : Items)

/-- The properties of an object literal, in order; the last form covers accessors and methods. -/
inductive Properties where
  | nil
  | keyed (key : PropertyKey) (value : Expr) (rest : Properties)
  | shorthand (name : String) (rest : Properties)
  | spread (rest : Properties)
  | other (rest : Properties)

inductive MemberKey where
  | name (s : String)
  | computed (e : Expr)
  | hidden

inductive Target where
  | name (x : String)
  | member (target : Expr) (key : MemberKey)
  | other

end

/-- The declarators of one declaration, in order. -/
inductive Declarators where
  | nil
  | name (x : String) (init : Option Expr) (rest : Declarators)
  | pattern (rest : Declarators)

mutual

inductive Statement where
  | expression (e : Expr)
  | declare (declarators : Declarators)
  | block (body : Statements)
  | branch (test : Expr) (yes : Statement)
  | choice (test : Expr) (yes no : Statement)
  | loop (test : Expr) (body : Statement)
  | empty
  | other

inductive Statements where
  | nil
  | cons (s : Statement) (rest : Statements)

end

namespace Items

def ofList : List (Option (Option Expr)) → Items
  | [] => nil
  | some (some e) :: rest => item e (ofList rest)
  | some none :: rest => spread (ofList rest)
  | none :: rest => hole (ofList rest)

def length : Items → Nat
  | nil => 0
  | item _ rest => rest.length + 1
  | hole rest => rest.length + 1
  | spread rest => rest.length + 1

end Items

namespace Statements

def ofList : List Statement → Statements
  | [] => nil
  | s :: rest => cons s (ofList rest)

end Statements
end Enclave
