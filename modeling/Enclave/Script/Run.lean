import Enclave.Script.Evaluate
import Enclave.Script.Read

/-!
# Runs

A run reads a whole script before any of it is evaluated. It leaves the value of the last
expression statement, or a fault and nothing else.
-/
namespace Enclave.Act

/-- A fault drops whatever it left on the working stack. -/
def recover {α : Type} (x : Act α) : Act (Except Fault α) := do
  let base ← height
  let outcome ← attempt x
  match outcome with
  | .ok a => pure (.ok a)
  | .error fault => do
    unwind base
    pure (.error fault)

/-- A program starts with null for the value of the last expression statement. -/
def execProgram (on : Surroundings) (program : Statements) : Act Unit := do
  push .null
  program.exec on

def execScript (on : Surroundings) (code : String) : Act Unit :=
  match Script.read? code with
  | some program => execProgram on program
  | none => raise .malformed

/-- The value of the script becomes the newest entry, unless there is a fault. -/
def runScript (on : Surroundings) (code : String) : Act (Except Fault Unit) :=
  recover (execScript on code)

end Enclave.Act
