import Offside.Settings

/-!
# Command line arguments

One template, and options in long or short form:

    path  --config FILE, -c FILE  --emit ir|json|ast, -e …  --pretty  --verbose, -v

The value of an option follows it, or is attached to it, with `=` or, in short form, directly. Short
options can share one hyphen. No option may be given twice. Arguments are read from left to right,
and the first thing that settles what is asked for, or that is wrong, counts.
-/

set_option autoImplicit false

namespace Offside.Command

/-- What is asked for when a template is compiled. -/
structure Invocation where
  path : Option String := none
  config : Option String := none
  emit : Option String := none
  pretty : Bool := false
  verbose : Bool := false
deriving DecidableEq, Repr

/-- What the command line asks for. -/
inductive Request where
  | compile (path : String) (invocation : Invocation)
  | version
  | help
deriving DecidableEq, Repr

/-- Options that take a value. -/
inductive Valued where
  | config
  | emit
deriving DecidableEq, Repr

/-- What one argument leads to: it is used up, it waits for its value, or it settles everything; a
wrong argument leads nowhere. -/
inductive Reading where
  | done (i : Invocation)
  | waiting (i : Invocation) (option : Valued)
  | settled (r : Request)
  | wrong

/-- Give an option its value. -/
def assign (i : Invocation) (value : String) : Valued → Option Invocation
  | .config => if i.config.isSome then none else some { i with config := some value }
  | .emit =>
    if i.emit.isSome || (Emit.ofName? value).isNone then none
    else some { i with emit := some value }

/-- The same, as a reading. -/
def assigned (i : Invocation) (value : String) (option : Valued) : Reading :=
  match assign i value option with
  | some i => .done i
  | none => .wrong

/-- Set a flag that has not been set. -/
def setPretty (i : Invocation) : Option Invocation :=
  if i.pretty then none else some { i with pretty := true }

/-- Set a flag that has not been set. -/
def setVerbose (i : Invocation) : Option Invocation :=
  if i.verbose then none else some { i with verbose := true }

/-- A flag, as a reading. -/
def flag : Option Invocation → Reading
  | some i => .done i
  | none => .wrong

/-- Read a long option, its name and the value attached to it. -/
def long (i : Invocation) (name : String) (attached : Option String) : Reading :=
  let valued (option : Valued) : Reading :=
    match attached with
    | some value => assigned i value option
    | none => .waiting i option
  match name, attached with
  | "config", _ => valued .config
  | "emit", _ => valued .emit
  | "pretty", none => flag (setPretty i)
  | "verbose", none => flag (setVerbose i)
  | "version", none => .settled .version
  | "help", none => .settled .help
  | _, _ => .wrong

/-- Read short options that share a hyphen. -/
def short (i : Invocation) : List Char → Reading
  | [] => .done i
  | c :: rest =>
    let valued (option : Valued) : Reading :=
      match rest with
      | [] => .waiting i option
      | '=' :: value => assigned i (String.ofList value) option
      | value => assigned i (String.ofList value) option
    if c == 'c' then valued .config
    else if c == 'e' then valued .emit
    else if c == 'v' then
      match setVerbose i with
      | some i => short i rest
      | none => .wrong
    else if c == 'V' then .settled .version
    else if c == 'h' then .settled .help
    else .wrong

/-- Take an argument for the path. -/
def takePath (i : Invocation) (arg : String) : Option Invocation :=
  if i.path.isSome then none else some { i with path := some arg }

/-- Read one argument. -/
def argument (i : Invocation) (arg : String) : Reading :=
  match arg.toList with
  | '-' :: '-' :: rest =>
    match rest.dropWhile (· != '=') with
    | [] => long i (String.ofList rest) none
    | _ :: value => long i (String.ofList (rest.takeWhile (· != '='))) (some (String.ofList value))
  | '-' :: c :: rest => short i (c :: rest)
  | _ => flag (takePath i arg)

/-- An argument that can be the value of the option before it. -/
def isValue (arg : String) : Bool :=
  match arg.toList with
  | '-' :: _ :: _ => false
  | _ => true

/-- Everything has been read: there has to be a template. -/
def finish (i : Invocation) : Option Request :=
  i.path.map fun path => .compile path i

/-- Read arguments; behind `--` all of them are paths. -/
def readFrom (i : Invocation) : List String → Option Request
  | [] => finish i
  | arg :: rest =>
    if arg == "--" then (rest.foldlM takePath i).bind finish
    else
      match argument i arg with
      | .done i => readFrom i rest
      | .settled r => some r
      | .wrong => none
      | .waiting i option =>
        match rest with
        | [] => none
        | value :: rest =>
          if isValue value then (assign i value option).bind fun i => readFrom i rest else none

/-- Read a command line; there is none if it makes no sense. -/
def readArgs (args : List String) : Option Request :=
  readFrom {} args

end Offside.Command
