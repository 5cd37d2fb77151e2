import Offside.Compile.Visit
import Offside.IR.Json
import Offside.Template.Parse
import Offside.Template.Size

/-!
# Front ends and whole compilations

A front end turns text into template trees. Compiling a tree needs one as soon as the tree captures
text, since captured text is template source again; and that text may capture text in turn. How
deeply captures may lie inside each other is bounded, so every compilation ends.

With the bundled front end the bound never shows: the text of a capture is shorter than the source
it stands in, so it is enough to allow for as many levels as the tree has bytes of text.
-/

set_option autoImplicit false

namespace Offside

/-- Turns text, given with the name of its template, into a tree. -/
abbrev FrontEnd (m : Type → Type) := String → Option String → m (Except ParseError Node)

namespace FrontEnd

/-- The front end for the template language. -/
def bundled {m : Type → Type} [Monad m] : FrontEnd m :=
  fun source filename => pure (Template.parse source filename)

/-! ## A front end that replays answers -/

/-- A question put to a front end. -/
structure Call where
  source : String
  filename : Option String
deriving DecidableEq, Repr

/-- What a compilation with a replaying front end runs in: the calls are known even if it fails. -/
abbrev Replayed := ExceptT CompileError (StateM (List Call))

/-- A front end that gives prepared answers, in order, the last of them again and again, and keeps
what it was asked. -/
def replay (first : Except ParseError Node) (others : List (Except ParseError Node)) :
    FrontEnd Replayed := fun source filename => do
  let calls ← getThe (List Call)
  set (calls ++ [⟨source, filename⟩])
  pure ((first :: others).getD calls.length (others.getLastD first))

end FrontEnd

namespace Compile

section Monadic

variable {m : Type → Type} [Monad m] [MonadExceptOf CompileError m]

/-- Compile captured text in which captures lie at most `depth` levels deep. -/
def embedded (o : Options) (frontEnd : FrontEnd m) : Nat → Embed m
  | 0 => fun _ _ => throw .tooDeep
  | depth + 1 => fun source filename => do
    match ← frontEnd source filename with
    | .error e => throw (.frontEnd e)
    | .ok root =>
      let visited ← visit o (embedded o frontEnd depth) none root
      pure visited.toList

/-- Visit the root of a tree with a front end for its captures, which may lie `depth` levels
deep. -/
def visitRoot (o : Options) (frontEnd : FrontEnd m) (depth : Nat) (root : Node) : m Visited :=
  visit o (embedded o frontEnd depth) none root

end Monadic

/-- Levels of captures that suffice for any tree, with the bundled front end. -/
def enoughDepth (root : Node) : Nat :=
  root.textSize + 1

/-- Visit the root of a tree with the bundled front end. -/
def visitTree (o : Options) (root : Node) : Except CompileError Visited :=
  visitRoot o FrontEnd.bundled (enoughDepth root) root

/-- Compile a tree with the bundled front end. -/
def tree (o : Options) (root : Node) : Except CompileError (List IR) :=
  (visitTree o root).map Visited.toList

/-- Parse template source. -/
def parse (o : Options) (source : String) : Except CompileError Node :=
  (Template.parse source o.filename).mapError .frontEnd

/-- Compile template source. -/
def source (o : Options) (source : String) : Except CompileError (List IR) := do
  let root ← parse o source
  tree o root

end Compile

/-- The text that a rendering runtime loads. -/
def artifact (o : Options) (nodes : List IR) : String :=
  "return " ++ (IR.allToJson nodes).render o.pretty ++ ";"

end Offside
