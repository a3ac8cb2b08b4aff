import Enclave.Program

/-!
# Command line

Reads the settings and the script file, and writes what the program makes of them.
-/
open Enclave in
/-- Runs the script file that the first argument names. -/
def main (args : List String) : IO UInt32 := do
  let marker ← IO.getEnv Config.errorMarkerSetting
  let limit ← IO.getEnv Config.maxArgumentsSetting
  let lookup (name : String) : Option String :=
    if name = Config.errorMarkerSetting then marker
    else if name = Config.maxArgumentsSetting then limit
    else none
  let input ← match args with
    | [] => pure Program.Input.noArgument
    | name :: _ =>
      try
        let content ← IO.FS.readBinFile name
        pure (Program.Input.file name content.toList)
      catch _ => pure (Program.Input.unreadable name)
  let ending := Program.ending lookup input
  IO.print ending.output
  if !ending.complaint.isEmpty then IO.eprintln ending.complaint
  pure (if ending.succeeded then 0 else 1)
