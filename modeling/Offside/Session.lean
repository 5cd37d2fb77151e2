import Offside.Compile.FrontEnd

/-!
# Sessions

A session keeps options and a list of compiled nodes. Templates are compiled into the list one after
the other, and the list can be moved, renamed, listed and written out. A template that does not
compile leaves the session as it was.
-/

set_option autoImplicit false

namespace Offside

/-- Options, and the nodes compiled so far. -/
structure Session where
  options : Options
  nodes : List IR

namespace Session

/-- A session with nothing in it. -/
def start : Session := ⟨{}, []⟩

/-- Add what a visit gave behind the nodes. -/
def merge (s : Session) (visited : Visited) : Session :=
  { s with nodes := s.nodes ++ visited.toList }

/-- Visit a tree, or nothing at all, and add what that gives. -/
def add (s : Session) (root : Option Node) : Except CompileError (Visited × Session) := do
  let visited ← match root with
    | some root => Compile.visitTree s.options root
    | none => .ok .skip
  .ok (visited, s.merge visited)

/-- Parse template source, visit it, and add what that gives. -/
def addSource (s : Session) (source : String) : Except CompileError (Visited × Session) := do
  let root ← Compile.parse s.options source
  s.add (some root)

/-- Change every tree in the session. -/
def mapNodes (s : Session) (f : IR → IR) : Session :=
  { s with nodes := s.nodes.map f }

/-- Move all lines down. -/
def shift (s : Session) (offset : UInt64) : Session :=
  s.mapNodes (IR.shift offset)

/-- Set the file name of every node, or remove it. -/
def rename (s : Session) (filename : Option String) : Session :=
  s.mapNodes (IR.rename filename)

/-- Forget all lines. -/
def forgetLines (s : Session) : Session :=
  s.mapNodes IR.forgetLines

/-- Drop the nodes. -/
def clear (s : Session) : Session :=
  { s with nodes := [] }

/-- All nodes at any depth, in the order they are walked. -/
def walk (s : Session) : List IR :=
  IR.walkAll s.nodes

/-- The listing of the nodes. -/
def listing (s : Session) (depth : Nat) : String :=
  IR.listing depth s.nodes

/-- The nodes as compact JSON. -/
def json (s : Session) : String :=
  (IR.allToJson s.nodes).compact

end Session

end Offside
