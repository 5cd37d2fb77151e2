import Offside.Proofs.Compile.Nested

/-!
# Places do not matter

Line numbers and file names are for whoever reads the output or an error. Nothing is decided by
them: two trees that are the same but for places compile to nodes that are the same but for
provenances, or fail alike (`visitTree_indifferent`).

Both compilations are compared with a third one, that of the tree without places. It is their common
image under `Relabel.nowhere`. Captured text is where places are handed back to the front end, as
the name of the template, and added to the places of what comes out. That the image of a captured
text is the same for any name and any line follows by induction on the weight of the text
(`nested_indifferent`).
-/

set_option autoImplicit false

namespace Offside

open List

/-! ## Without places -/

/-- The place that all places are set to when they do not matter. -/
def Place.nowhere : Place := ⟨0, none⟩

/-- The tree without lines and file names. -/
def Node.unplaced : Node → Node :=
  mapPlace fun _ => .nowhere

/-- What comes of a visit, without lines and file names. -/
def Visited.unplaced : Visited → Visited :=
  mapOrigin fun _ => .ofPlace .nowhere

/-- The error without the place it is about; everything else stays. -/
def CompileError.unplaced : CompileError → CompileError
  | .frontEnd e => .frontEnd ⟨.nowhere, e.fault⟩
  | .unsupported what _ => .unsupported what .nowhere
  | .misplaced what _ => .misplaced what .nowhere
  | .violation found node => .violation found node.unplaced
  | .tooDeep => .tooDeep

/-- Forgetting all places, the name of the template among them. -/
def Relabel.nowhere : Relabel where
  place _ := .nowhere
  origin _ := .ofPlace .nowhere
  error := CompileError.unplaced
  filename _ := none
  origin_ofPlace _ := rfl
  error_unsupported _ _ := rfl
  error_misplaced _ _ := rfl

/-! ## Messages -/

namespace CompileError

/-- What stands in front of a message: the place that the error is about. -/
def heading : CompileError → String
  | .frontEnd e => e.place.label ++ ": "
  | .unsupported _ place | .misplaced _ place => place.label ++ ": "
  | .violation _ node => node.place.label ++ ": "
  | .tooDeep => ""

/-- Why a node of this kind, whose statement starts with `found`, cannot be compiled. -/
def complaint (found kind : String) : String :=
  "front end protocol violation on " ++ kind ++ " node: " ++ unknownCode found

/-- The message without the place in front. -/
def words : CompileError → String
  | .frontEnd e => e.fault.message
  | .unsupported what _ => what.message
  | .misplaced what _ => what.message
  | .violation found node => complaint found node.kindName
  | .tooDeep => "captures are nested too deeply"

theorem message_eq (e : CompileError) : e.message = e.heading ++ e.words := by
  cases e with
  | frontEnd e => rw [message, heading, words, ParseError.message]
  | unsupported what place | misplaced what place => rw [message, heading, words]
  | violation found node =>
    -- The message of a violation has no break between place and words, so one is made.
    have hcut : ": front end protocol violation on " =
        ": " ++ "front end protocol violation on " := by decide
    rw [message, heading, words, hcut]
    delta complaint
    simp only [String.append_assoc]
  | tooDeep => rw [message, heading, words, String.empty_append]

end CompileError

theorem Node.kindName_mapPlace (g : Place → Place) (n : Node) :
    (n.mapPlace g).kindName = n.kindName := by
  cases n with
  | leaf l p => cases l <;> simp [kindName]
  | lead l body p => cases l <;> simp [kindName]
  | frame f body p => cases f <;> simp [kindName]
  | block body p | tag t body code p => simp [kindName]

/-- The words of an error are the same wherever it is. -/
theorem CompileError.words_unplaced (e : CompileError) : e.unplaced.words = e.words := by
  cases e with
  | violation found node => rw [unplaced, words, Node.unplaced, Node.kindName_mapPlace, words]
  | frontEnd e | unsupported what place | misplaced what place => rw [unplaced, words, words]
  | tooDeep => rw [unplaced]

/-! ## Parsing under another name -/

namespace Template

/-- The same text under another name is the same tree with that name in its places. -/
theorem parse_rename (text : String) (f f' : Option String) :
    parse text f' =
      mapBoth (ParseError.move (fun p => { p with filename := f' }) 0)
        (Node.mapPlace fun p => { p with filename := f' }) (parse text f) := by
  have hmoved : Forall₂ (Moved f f' (fun p => { p with filename := f' }) 0) (Line.ofSource text)
      (Line.ofSource text) :=
    forall₂_same.mpr fun l _ => ⟨rfl, rfl, fun _ => rfl, fun _ => rfl⟩
  rw [parse, nodesOf_moved hmoved, parse]
  cases nodesOf f (Line.ofSource text) with
  | error e => rfl
  | ok nodes =>
    simp only [mapBoth_ok, Except.map, Node.mapPlace_block, Block.mapPlace_plain]

end Template

namespace Compile

variable {o o' : Options} {embed embed' : Embed (Except CompileError)}

/-! ## Captures -/

/-- What compiled text comes to, without places. -/
def textUnplaced : Except CompileError (List IR) → Except CompileError (List IR) :=
  mapBoth CompileError.unplaced (map (IR.mapOrigin fun _ => .ofPlace .nowhere))

theorem unplaced_shift (offset : UInt64) (e : CompileError) :
    (e.shift offset).unplaced = e.unplaced.shift 0 := by
  cases e <;> rfl

theorem map_shift_unplaced (offset : UInt64) (nodes : List IR) :
    (nodes.map (IR.shift offset)).map (IR.mapOrigin fun _ => .ofPlace .nowhere) =
      (nodes.map (IR.mapOrigin fun _ => .ofPlace .nowhere)).map (IR.shift 0) := by
  rw [map_map, map_map]
  refine map_congr_left fun n _ => ?_
  simp only [Function.comp_apply, IR.shift, IR.mapOrigin_mapOrigin]
  rfl

/-- A capture without its place is the capture of what its text comes to without places. -/
theorem capture_unplaced {attrs : List Attr} {text : String} {p : Place}
    (h : embed' text none = textUnplaced (embed text (p.filename <|> o.filename))) :
    capture (Relabel.nowhere.options o) embed' attrs text .nowhere =
      Relabel.nowhere.visited (capture o embed attrs text p) := by
  have hname : (Place.nowhere.filename <|> (Relabel.nowhere.options o).filename) = none := rfl
  rw [capture_eq, capture_eq, hname, h]
  cases embed text (p.filename <|> o.filename) with
  | error e => exact congrArg Except.error (unplaced_shift p.line e).symm
  | ok nodes =>
    -- What is assigned shows no places, not even where it is a listing.
    have hassign : assignment (Relabel.nowhere.options o) attrs text
        (nodes.map (IR.mapOrigin fun _ => .ofPlace .nowhere)) = assignment o attrs text nodes := by
      simp only [assignment, IR.listing_map]
      rfl
    rw [textUnplaced, mapBoth_ok, mapBoth_ok, mapBoth_ok, hassign, Relabel.visited, mapBoth_ok,
      Visited.mapOrigin_many, map_cons, IR.mapOrigin_atom]
    rw [← show _ = map (IR.shift Place.nowhere.line) _ from map_shift_unplaced p.line nodes]
    rfl

/-! ## Two visits -/

/-- Visiting a tree without places is visiting it and then forgetting them. -/
theorem visit_unplaced {n : Node}
    (h : ∀ attrs body p, .frame (.filter "capture" attrs) body p ∈ n.walk → ∀ f,
      embed' (linesOf body.nodes) none = textUnplaced (embed (linesOf body.nodes) f)) :
    Relabels .nowhere o embed embed' n := by
  refine visit_relabel fun m hm => ?_
  cases m with
  | lead l body p =>
    cases l with
    | code coded buffer escape => exact .inr fun _ _ => rfl
    | each header key | when expr | mixin name args call => trivial
  | frame f body p =>
    cases f with
    | filter name attrs =>
      rintro rfl
      exact capture_unplaced (h attrs body p hm _)
    | comment text buffer | caseOf expr => trivial
  | leaf l p | block body p | tag t body code p => trivial

/-- Trees that are the same but for places are visited alike, if what they capture is compiled
alike. -/
theorem visit_indifferent (blind : Embed (Except CompileError)) {n n' : Node}
    (hn : n.unplaced = n'.unplaced)
    (ho : { o with filename := none } = { o' with filename := none })
    (h : ∀ attrs body p, .frame (.filter "capture" attrs) body p ∈ n.walk → ∀ f,
      blind (linesOf body.nodes) none = textUnplaced (embed (linesOf body.nodes) f))
    (h' : ∀ attrs body p, .frame (.filter "capture" attrs) body p ∈ n'.walk → ∀ f,
      blind (linesOf body.nodes) none = textUnplaced (embed' (linesOf body.nodes) f))
    (host : Option Host) :
    Relabel.nowhere.visited (visit o embed host n) =
      Relabel.nowhere.visited (visit o' embed' host n') := by
  calc Relabel.nowhere.visited (visit o embed host n)
      = visit { o with filename := none } blind host n.unplaced := (visit_unplaced h host).symm
    _ = visit { o' with filename := none } blind host n'.unplaced := by rw [hn, ho]
    _ = Relabel.nowhere.visited (visit o' embed' host n') := visit_unplaced h' host

theorem textUnplaced_map_toList (x : Except CompileError Visited) :
    textUnplaced (x.map Visited.toList) =
      (Relabel.nowhere.visited x).map Visited.toList := by
  cases x with
  | error e => rfl
  | ok v => exact congrArg Except.ok (Visited.toList_mapOrigin _ v).symm

/-- Text compiles to the same but for places under any name. -/
theorem nested_indifferent (ho : { o with filename := none } = { o' with filename := none })
    (text : String) (f f' : Option String) :
    textUnplaced (nested o text f) = textUnplaced (nested o' text f') := by
  -- Captured text weighs less than the text it is captured from.
  induction hweight : Text.weight text.toList using Nat.strongRecOn
    generalizing text f f' o o' with
  | ind w ih =>
    have hrename := Template.parse_rename text f f'
    rw [nested_eq, nested_eq, hrename]
    cases hparse : Template.parse text f with
    | error e =>
      obtain ⟨place, fault⟩ := e
      cases fault <;> rfl
    | ok root =>
      rw [hparse, mapBoth_ok] at hrename
      rw [mapBoth_ok, textUnplaced_map_toList, textUnplaced_map_toList]
      have htree : root.unplaced = (root.mapPlace fun p => { p with filename := f' }).unplaced :=
        (Node.mapPlace_mapPlace (fun p => { p with filename := f' }) (fun _ => .nowhere) root).symm
      let blind : Embed (Except CompileError) := fun t _ => textUnplaced (nested o t none)
      refine congrArg _ (visit_indifferent blind htree ho ?_ ?_ none)
      · intro attrs body p hmem f
        exact ih _ (hweight ▸ Template.weight_filter_lt hparse hmem) rfl _ _ _ rfl
      · intro attrs body p hmem f
        exact ih _ (hweight ▸ Template.weight_filter_lt hrename hmem) ho _ _ _ rfl

/-! ## Two compilations -/

/-- The two outcomes differ in places only: both give the same, or both fail, for the same reason
and in the same words. -/
def Alike : Except CompileError Visited → Except CompileError Visited → Prop
  | .ok v, .ok v' => v.unplaced = v'.unplaced
  | .error e, .error e' =>
    e.unplaced = e'.unplaced ∧
      ∃ words, e.message = e.heading ++ words ∧ e'.message = e'.heading ++ words
  | _, _ => False

theorem alike_of_visited_eq {x x' : Except CompileError Visited}
    (h : Relabel.nowhere.visited x = Relabel.nowhere.visited x') : Alike x x' := by
  cases x with
  | ok v =>
    cases x' with
    | ok v' => exact Except.ok.inj h
    | error e' => cases h
  | error e =>
    cases x' with
    | ok v' => cases h
    | error e' =>
      have he : e.unplaced = e'.unplaced := Except.error.inj h
      have hwords : e'.words = e.words := by
        rw [← CompileError.words_unplaced, ← he, CompileError.words_unplaced]
      exact ⟨he, e.words, e.message_eq, hwords ▸ e'.message_eq⟩

/-- Nothing is decided by lines and file names. Trees that are the same without them, compiled with
options that are the same but for the name of the template, come to the same without them. -/
theorem visitTree_indifferent {root root' : Node} (hroot : root.unplaced = root'.unplaced)
    (ho : { o with filename := none } = { o' with filename := none }) :
    Alike (visitTree o root) (visitTree o' root') := by
  rw [visitTree_eq, visitTree_eq]
  -- In the tree without places, captured text compiles to what it comes to without a name.
  let blind : Embed (Except CompileError) := fun t _ => textUnplaced (nested o t none)
  refine alike_of_visited_eq (visit_indifferent blind hroot ho ?_ ?_ none)
  · intro attrs body p hmem f
    exact nested_indifferent rfl _ _ _
  · intro attrs body p hmem f
    exact nested_indifferent ho _ _ _

/-- A tag and a capture that is evaluated before it is assigned, at a place. -/
def capturingAt (p : Place) : Node :=
  .block (.plain
    [.tag ⟨"ul", [], [], false⟩ (.plain []) none p,
      .frame (.filter "capture" [⟨"unquote", .flag true, true⟩])
        (.plain [.leaf (.text "li: b one") p, .leaf (.text "| two") p]) p]) p

theorem visitTree_capturing_indifferent :
    let o : Options := { filename := some "page", pretty := true }
    let o' : Options := { pretty := true }
    let root := capturingAt ⟨3, some "part"⟩
    let root' := capturingAt ⟨70, none⟩
    root.place ≠ root'.place ∧ root.unplaced = root'.unplaced ∧
      (visitTree o root).isOk = true ∧ Alike (visitTree o root) (visitTree o' root') := by
  have hroot : (capturingAt ⟨3, some "part"⟩).unplaced = (capturingAt ⟨70, none⟩).unplaced := by
    simp [capturingAt, Node.unplaced]
  exact ⟨by decide, hroot, by decide +kernel, visitTree_indifferent hroot rfl⟩

end Compile

end Offside
