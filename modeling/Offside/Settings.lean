import Offside.Compile.Options
import Offside.Files
import Offside.Settings.KeyPath
import Offside.Toml

/-!
# Settings

Settings come in layers. The built-in ones lie at the bottom, files are laid over them in order, and
single settings that are given by themselves lie on top of all files. A layer says only what it
wants to change.
-/

set_option autoImplicit false

namespace Offside

/-- What is written out at the end. -/
inductive Emit where
  /-- The text that a rendering runtime loads. -/
  | artifact
  /-- The render nodes as JSON. -/
  | nodes
  /-- The template tree as JSON. -/
  | tree
deriving DecidableEq, Repr

/-- The output with a given name. -/
def Emit.ofName? (name : String) : Option Emit :=
  if name = "ir" then some .artifact
  else if name = "json" then some .nodes
  else if name = "ast" then some .tree
  else none

/-- Everything that can be set. -/
structure Settings where
  captureVariable : String
  blockMarker : Char
  phraseTag : String
  pretty : Bool
  emit : Emit
deriving DecidableEq, Repr

/-- Why settings cannot be loaded. -/
inductive SettingsError where
  /-- The name of a single setting is no path. -/
  | malformedPath
  /-- A file that has to be there cannot be read. -/
  | unreadable
  /-- A file is no TOML document. -/
  | malformed
  /-- A value is of a type that the setting does not take. -/
  | wrongType
  /-- A value is none of those that the setting takes. -/
  | wrongValue
deriving DecidableEq, Repr

/-- A layer of settings. -/
inductive Layer where
  | file (path : String) (required : Bool)
  | single (key : String) (value : Value)

namespace Settings

/-- The built-in settings. -/
def builtIn : Value :=
  .table [
    ("compiler", .table [("capture_variable", .text "capture"), ("block_marker", .text "!"),
      ("translation_tag", .text "t")]),
    ("output", .table [("pretty", .bool false), ("emit", .text "ir")])]

/-! ## Reading values -/

/-- A text; booleans and numbers count as their text. -/
def text : Value → Except SettingsError String
  | .text s => .ok s
  | .int n => .ok (toString n)
  | .double x => .ok x.text
  | .bool true => .ok "true"
  | .bool false => .ok "false"
  | .nothing | .list _ | .table _ => .error .wrongType

/-- One character. -/
def character : Value → Except SettingsError Char
  | .text s =>
    match s.toList with
    | [c] => .ok c
    | _ => .error .wrongValue
  | _ => .error .wrongValue

/-- A truth value; numbers and a few words count as one. -/
def truth : Value → Except SettingsError Bool
  | .bool b => .ok b
  | .int n => .ok (n != 0)
  | .double x => .ok !x.isZero
  | .text s =>
    if ["1", "true", "on", "yes"].contains (Text.lowered s) then .ok true
    else if ["0", "false", "off", "no"].contains (Text.lowered s) then .ok false
    else .error .wrongType
  | .nothing | .list _ | .table _ => .error .wrongType

/-- The name of an output, in any case, or a table with that name alone in it. -/
def emitted (v : Value) : Except SettingsError Emit :=
  let name := match v with
    | .text s => some s
    | .table [(name, _)] => some name
    | _ => none
  match name.bind fun n => Emit.ofName? (Text.lowered n) with
  | some e => .ok e
  | none => .error .wrongValue

/-- What a group says about a setting. A group is a table, which may leave the setting out, or a
list of all settings in order. -/
def lookup {α : Type} (group : Value) (position : Nat) (name : String)
    (read : Value → Except SettingsError α) : Except SettingsError (Option α) :=
  match group with
  | .table entries =>
    match Ordered.get? name entries with
    | some v => (read v).map some
    | none => .ok none
  | .list items =>
    match items[position]? with
    | some v => (read v).map some
    | none => .error .wrongValue
  | _ => .error .wrongValue

/-- A setting that has to be there. -/
def given {α : Type} : Option α → Except SettingsError α
  | some a => .ok a
  | none => .error .wrongValue

/-- The settings that a table spells out. In each group, a bad value is reported before one that is
left out. -/
def ofValue (all : Value) : Except SettingsError Settings := do
  let compiler ← lookup all 0 "compiler" .ok >>= given
  let captureVariable ← lookup compiler 0 "capture_variable" text
  let blockMarker ← lookup compiler 1 "block_marker" character
  let phraseTag ← lookup compiler 2 "translation_tag" text
  let captureVariable ← given captureVariable
  let blockMarker ← given blockMarker
  let phraseTag ← given phraseTag
  let output ← lookup all 1 "output" .ok >>= given
  let pretty ← lookup output 0 "pretty" truth
  let emit ← lookup output 1 "emit" emitted
  let pretty ← given pretty
  let emit ← given emit
  .ok { captureVariable, blockMarker, phraseTag, pretty, emit }

/-- The options for compiling a template of a given name. -/
def options (s : Settings) (filename : Option String) : Options where
  filename
  captureVariable := s.captureVariable
  blockMarker := s.blockMarker
  phraseTag := s.phraseTag
  pretty := s.pretty

/-! ## Loading layers -/

/-- Lay an entry of a file over `base`: its key is a path, if it can be read as one. -/
def overEntry (base : Value) (entry : String × Value) : Value :=
  KeyPath.set entry.2 ((KeyPath.ofText? entry.1).getD [.field entry.1]) base

/-- The single settings of a list of layers, with their paths. -/
def singles : List Layer → Except SettingsError (List (KeyPath × Value))
  | [] => .ok []
  | .file _ _ :: rest => singles rest
  | .single key value :: rest =>
    match KeyPath.ofText? key with
    | some path => (singles rest).map ((path, value) :: ·)
    | none => .error .malformedPath

section Loading

variable {m : Type → Type} [Monad m]

/-- Read a settings file; its extension may be left out of the path. -/
def readFile (read : Reader m) (path : String) : m (Except ReadFault String) := do
  match ← read path with
  | .ok text => pure (.ok text)
  | .error .notText => pure (.error .notText)
  | .error fault =>
    match Path.extend? path ".toml" with
    | some path => read path
    | none => pure (.error fault)

/-- Lay the files of a list of layers over `base`, in order. -/
def overFiles (read : Reader m) (base : Value) : List Layer → m (Except SettingsError Value)
  | [] => pure (.ok base)
  | .single _ _ :: rest => overFiles read base rest
  | .file path required :: rest => do
    match ← readFile read path with
    | .error _ => if required then pure (.error .unreadable) else overFiles read base rest
    | .ok text =>
      match Toml.parse? text with
      | none => pure (.error .malformed)
      | some table => overFiles read (table.entries.foldl overEntry base) rest

/-- Load settings from layers. -/
def load (read : Reader m) (layers : List Layer) : m (Except SettingsError Settings) := do
  match singles layers with
  | .error e => pure (.error e)
  | .ok top =>
    match ← overFiles read builtIn layers with
    | .error e => pure (.error e)
    | .ok table => pure (ofValue (top.foldl (fun base s => KeyPath.set s.2 s.1 base) table))

end Loading

end Settings

end Offside
