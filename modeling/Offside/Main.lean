import Offside.Command

/-!
# The program

The outer layer of the command: it reads files, prints, and sets the exit code.
-/

set_option autoImplicit false

namespace Offside

/-- Why the system did not read a file. -/
def faultOf (e : IO.Error) : ReadFault :=
  match e with
  | .noFileOrDirectory _ _ _ => .missing
  | .inappropriateType _ _ _ => .isDirectory
  | e => .other (toString e)

/-- Reads files of the machine. -/
def readDisk : Reader IO := fun path => do
  try
    let bytes ← IO.FS.readBinFile path
    match String.fromUTF8? bytes with
    | some text => pure (.ok text)
    | none => pure (.error .notText)
  catch e => pure (.error (faultOf e))

end Offside

/-- Run the command with the arguments of the process. -/
def main (args : List String) : IO UInt32 := do
  match ← Offside.Command.run Offside.readDisk args with
  | .printed text => IO.println text; pure 0
  | .failed reason => IO.eprintln ("error: " ++ reason); pure 1
  | .misused => IO.eprintln Offside.Command.helpText; pure 2
