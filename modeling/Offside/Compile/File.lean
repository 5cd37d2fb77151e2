import Offside.Compile.FrontEnd
import Offside.Files

/-!
# Compiling files
-/

set_option autoImplicit false

namespace Offside

/-- Why a file cannot be compiled. -/
inductive FileError where
  | unreadable (path : String) (fault : ReadFault)
  | compile (error : CompileError)

/-- The whole message. -/
def FileError.message : FileError → String
  | .unreadable path fault => "failed to read " ++ path ++ ": " ++ fault.reason
  | .compile error => error.message

namespace Compile

variable {m : Type → Type} [Monad m]

/-- Read a template and compile it to what a rendering runtime loads. The template is named after
its path, unless the options name it. -/
def file (read : Reader m) (o : Options) (path : String) : m (Except FileError String) := do
  match ← read path with
  | .error fault => pure (.error (.unreadable path fault))
  | .ok text =>
    let o := { o with filename := some (o.filename.getD path) }
    pure (((source o text).map (artifact o)).mapError .compile)

end Compile

end Offside
