import Enclave.Script.Grammar.Statement

/-!
# Reading scripts

The readers tied together. A reader of one level calls those of the next level only behind a
token it has consumed, so more levels than the script has characters are never used up.
-/
namespace Enclave.Script

def Grammar.level : (levels : Nat) → Grammar
  | 0 =>
    ⟨fun _ => failure, fun _ => failure, fun _ => failure, fun _ => failure, fun _ => failure,
      fun _ => failure, fun _ => failure⟩
  | levels + 1 =>
    { assign := fun ctx => Reader.assign (level levels) ctx
      unary := fun ctx => Reader.unary (level levels) ctx none
      operand := fun ctx => Reader.operand (level levels) ctx none
      fresh := fun ctx => Reader.fresh (level levels) ctx
      statement := fun ctx => Reader.statement (level levels) ctx
      item := fun ctx => Reader.item (level levels) ctx
      pattern := fun ctx => Reader.bindingPattern (level levels) ctx }

/-- A mark of the order of bytes in front of a script is no part of it. -/
def skipByteOrder : List Char → List Char
  | '\uFEFF' :: rest => rest
  | text => text

/-- A first line that names a program to run the script is a comment. -/
def skipProgramLine : List Char → List Char
  | '#' :: '!' :: rest => rest.dropWhile fun c => !isLineEnd c
  | text => text

/-- The statements of a script, unless its text is no script. -/
def read? (text : String) : Option Statements := do
  let chars := skipProgramLine (skipByteOrder text.toList)
  let room := chars.length + 4
  let ctx := Context.script room
  let first ← nextToken ctx.mode room true chars
  let g := Grammar.level (2 * room)
  let ((statements, _), _) ← (Reader.strictItems g Token.endsScript ctx).run first
  some (.ofList statements)

end Enclave.Script
