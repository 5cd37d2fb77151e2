import Offside.Command.Args
import Offside.Compile.File
import Offside.Template.Json

/-!
# The command

Compiles one template and prints the result. Settings are taken from a file beside the template, if
there is one, then from the file that is named on the command line, then from the command line
itself; they are loaded before the template is read.
-/

set_option autoImplicit false

namespace Offside.Command

/-- How a command ends. -/
inductive Outcome where
  /-- It prints a text. -/
  | printed (text : String)
  /-- It fails, for a reason. -/
  | failed (reason : String)
  /-- The command line makes no sense. -/
  | misused
deriving DecidableEq, Repr

/-- What `--version` prints. -/
def versionText : String := "directiv 0.1.0"

/-- What `--help` prints. -/
def helpText : String :=
  "Compile a template into its JSON intermediate representation\n\n" ++
  "Usage: directiv [OPTIONS] <path>\n\n" ++
  "  -c, --config <file>   settings laid over the built-in ones\n" ++
  "  -e, --emit <format>   what to print: ir, json or ast\n" ++
  "      --pretty          spread JSON over several lines\n" ++
  "  -v, --verbose         say what is going on\n" ++
  "  -h, --help            print this\n" ++
  "  -V, --version         print the version"

/-- The name of the settings file beside a template. -/
def localSettings : String := "directiv.toml"

/-- The layers of settings for a template. -/
def layers (path : String) (i : Invocation) : List Layer :=
  [.file (Path.join ((Path.parent? path).getD ".") localSettings) false] ++
    (i.config.toList.map fun file => .file file true) ++
    (i.emit.toList.map fun name => .single "output.emit" (.text name)) ++
    (if i.pretty then [.single "output.pretty" (.bool true)] else [])

/-- What is printed for a template. -/
def output (s : Settings) (filename text : String) : Except CompileError String := do
  let o := s.options (some filename)
  let root ← Compile.parse o text
  if s.emit = .tree then .ok (root.toJson.render s.pretty)
  else
    let nodes ← Compile.tree o root
    .ok (if s.emit = .nodes then (IR.allToJson nodes).render s.pretty else artifact o nodes)

variable {m : Type → Type} [Monad m]

/-- Compile the template at a path as the command line asks for it. -/
def compile (read : Reader m) (path : String) (i : Invocation) : m Outcome := do
  match ← Settings.load read (layers path i) with
  | .error _ => pure (.failed "configuration error")
  | .ok s =>
    match ← read path with
    | .error fault => pure (.failed (FileError.message (.unreadable path fault)))
    | .ok text =>
      match output s path text with
      | .error e => pure (.failed e.message)
      | .ok out => pure (.printed out)

/-- Run the command. -/
def run (read : Reader m) (args : List String) : m Outcome :=
  match readArgs args with
  | none => pure .misused
  | some .version => pure (.printed versionText)
  | some .help => pure (.printed helpText)
  | some (.compile path i) => compile read path i

end Offside.Command
