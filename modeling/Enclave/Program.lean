import Enclave.Host.Native
import Enclave.Host.Stock

/-!
# The program

The command line runs one script in an engine that offers a function that adds two numbers and a
class that counts. What the program does is a function of its settings and of what was found under
its argument.
-/
namespace Enclave.Program

open Act

/-- What the first argument led to. -/
inductive Input where
  | noArgument
  | unreadable (name : String)
  | file (name : String) (content : Text.Bytes)

structure Ending where
  succeeded : Bool
  output : String
  complaint : String

/-- The key of a counter's number. -/
def countKey : String := "x"

/-- The class of counters becomes the newest entry. -/
def makeCounter (base : Nat) : Act (Except HostError (View .classDesc)) := do
  createClass true (some (Text.encode "Counter"))
  let made ← viewMade .classDesc
  match made with
  | .error e => pure (.error e)
  | .ok counter => do
    let constructor ← createClosure base none [] (Stock.storingNumber countKey).body
    match ← installMethod base counter constructorName constructor with
    | .error e => pure (.error e)
    | .ok () => do
      let count ← createClosure base none [] (Stock.counting countKey).body
      let installed ← installMethod base counter "inc" count
      pure (installed.map fun () => counter)

/-- Everything that scripts of the command line can use. -/
def install (on : Surroundings) (base : Nat) : Act (Except HostError Unit) := do
  match ← registerClosure on base "hostAdd" none [] Stock.addTwo.body with
  | .error e => pure (.error e)
  | .ok () => do
    match ← makeCounter base with
    | .error e => pure (.error e)
    | .ok counter => do
      change (·.secure base counter.value.slot)
      declareTop on "Counter" counter.value

/-- Runs a script after everything has been installed; gives the text of its value. -/
def runSource (source : String) : Act (Except HostError String) := do
  let w ← world
  let on := w.surroundings
  match ← install on 0 with
  | .error e => pure (.error e)
  | .ok () => engineRun on source

def failed (complaint : String) : Ending :=
  ⟨false, "", complaint⟩

def usage : String := "usage: enclave <script.js>"

/-- What the program writes and whether it succeeds. -/
def ending (lookup : String → Option String) : Input → Ending
  | .noArgument => failed usage
  | .unreadable name => failed ("failed to read " ++ name)
  | .file name content =>
    match Text.decode? content with
    | none => failed ("failed to read " ++ name ++ ": not text")
    | some source =>
      match runSource source ⟨.initial (.ofSettings lookup), []⟩ with
      | .done (.ok shown) _ => ⟨true, "run returned: " ++ withoutDetail shown ++ "\n", ""⟩
      | .done (.error e) _ => failed ("run failed: " ++ e.message)
      | .raised fault _ => failed ("run failed: " ++ fault.message)
      | .stopped _ => failed "run stopped"

end Enclave.Program
