import Offside.Attribute.Listing
import Offside.Json.Quoted
import Offside.Tag
import Offside.Text.Word

/-!
# Reading tag lines

A tag line is a name, or a shorthand that stands for `div`, followed in any order by class and id
shorthands, attribute lists and spreads. After those come an optional `/` and at most one tail:

    p.              the lines below are verbatim text
    p= expr         code (`!=` leaves its value unescaped)
    li: a(href=x)   the rest of the line is the only child
    p Hello         text

The parts are read from left to right, so the first fault on the line is the one that is reported;
attributes of one list count as read together.
-/

set_option autoImplicit false

namespace Offside.TagHead

open Text

/-! ## The name -/

/-- The rest of a tag name: name characters, and colons in front of a name character. -/
def nameRest : List Char → List Char × List Char
  | [] => ([], [])
  | c :: rest =>
    if isNameChar c || (c == ':' && rest.head?.any isNameChar) then
      let (name, after) := nameRest rest
      (c :: name, after)
    else ([], c :: rest)

/-- The tag name at the start of a line; a line that starts with a shorthand names `div`. -/
def readName (s : List Char) : Except TagFault (String × List Char) :=
  match s with
  | c :: rest =>
    if c.isAlpha then
      let (name, after) := nameRest rest
      .ok (String.ofList (c :: name), after)
    else if c == '.' || c == '#' then .ok ("div", s)
    else .error (.unexpectedText (String.ofList s))
  | [] => .error (.unexpectedText "")

/-! ## The parts -/

/-- A part of a tag head: attributes, or an expression spread into them. -/
inductive Part where
  | attrs (attrs : List Attr)
  | spread (expr : String)
deriving DecidableEq, Repr

/-- The attribute that a shorthand stands for: `.` gives a class, `#` the id. -/
def shorthand (sign : Char) (value : List Char) : Attr where
  name := if sign == '.' then "class" else "id"
  value := .expr (Json.quote (String.ofList value))
  escaped := false

/-- The spread at the start of a text that comes after `&attributes`. -/
def readSpread (s : List Char) : Except TagFault (String × List Char) :=
  match s with
  | '(' :: rest =>
    match Scan.start.inside rest with
    | some (inner, after) => .ok (trimmed inner, after)
    | none => .error .spreadUnterminated
  | _ => .error .spreadNotOpened

/-- The part at the start of a text, if there is one, and what follows it. -/
def readPart (s : List Char) : Except TagFault (Option (Part × List Char)) :=
  match s with
  | [] => .ok none
  | c :: rest =>
    if (c == '.' || c == '#') && rest.head?.any isNameChar then
      .ok (some (.attrs [shorthand c (rest.takeWhile isNameChar)], rest.dropWhile isNameChar))
    else if c == '(' then
      match Attr.readList s with
      | .error fault => .error (.attributes fault)
      | .ok (attrs, after) => .ok (some (.attrs attrs, after))
    else
      match after? "&attributes" s with
      | none => .ok none
      | some spread =>
        match readSpread spread with
        | .error fault => .error fault
        | .ok (expr, after) => .ok (some (.spread expr, after))

theorem length_readSpread {s after : List Char} {expr : String}
    (h : readSpread s = .ok (expr, after)) : after.length < s.length := by
  unfold readSpread at h
  split at h
  · split at h
    · rename_i rest _ inner after' hin
      have hlen := Scan.length_inside hin
      cases h
      simp only [List.length_cons]
      omega
    · cases h
  · cases h

theorem length_readPart {s after : List Char} {part : Part}
    (h : readPart s = .ok (some (part, after))) : after.length < s.length := by
  unfold readPart at h
  split at h
  · cases h
  · rename_i c rest
    split at h
    · cases h
      have := (List.dropWhile_sublist (l := rest) isNameChar).length_le
      simp only [List.length_cons]
      omega
    · split at h
      · split at h
        · cases h
        · rename_i attrs after' hlist
          cases h
          exact Attr.length_readList hlist
      · split at h
        · cases h
        · rename_i spread hsp
          split at h
          · cases h
          · rename_i expr after' hread
            cases h
            have h1 := length_readSpread hread
            have h2 := congrArg List.length (eq_append_of_after? hsp)
            simp only [List.length_append] at h2
            omega

/-- Add an attribute behind those read before; only collected names may come again. -/
def addAttr (attrs : List Attr) (attr : Attr) : Except TagFault (List Attr) :=
  if !Attr.collects attr.name && attrs.any (·.name == attr.name) then .error (.duplicate attr.name)
  else .ok (attrs ++ [attr])

/-- Read parts as long as there are some, behind the attributes and spreads read before. -/
def readParts (attrs : List Attr) (spreads : List String) (s : List Char) :
    Except TagFault (List Attr × List String × List Char) :=
  match h : readPart s with
  | .error fault => .error fault
  | .ok none => .ok (attrs, spreads, s)
  | .ok (some (.attrs new, after)) =>
    have := length_readPart h
    match new.foldlM addAttr attrs with
    | .error fault => .error fault
    | .ok attrs => readParts attrs spreads after
  | .ok (some (.spread expr, after)) =>
    have := length_readPart h
    readParts attrs (spreads ++ [expr]) after
termination_by s.length

/-! ## The tail -/

/-- What follows the head of the tag `name`. -/
def readTail (name : String) : List Char → Except TagFault TagTail
  | [] => .ok .none
  | ['.'] => .ok .textBlock
  | '!' :: '=' :: expr => .ok (.code (trimmed expr) false)
  | '=' :: expr => .ok (.code (trimmed expr) true)
  | ':' :: child =>
    if startsWithSpace child then .ok (.expansion (trimmed child))
    else .error (.expansionNotParted (String.ofList child))
  | ' ' :: text => .ok (.text (String.ofList text))
  | rest => .error (.trailing (String.ofList rest) name)

/-- The self-closing mark in front of a tail, and the tail's text. -/
def readMark : List Char → Bool × List Char
  | '/' :: rest => (true, rest)
  | rest => (false, rest)

/-- Read a tag line. -/
def read (s : List Char) : Except TagFault TagHead := do
  let (name, rest) ← readName s
  let (attrs, spreads, rest) ← readParts [] [] rest
  let (selfClosing, rest) := readMark rest
  let tail ← readTail name rest
  .ok { name, attrs, spreads, selfClosing, tail }

/-! ## An expansion is shorter than its line -/

theorem length_nameRest (s : List Char) : (nameRest s).2.length ≤ s.length := by
  induction s with
  | nil => simp [nameRest]
  | cons c rest ih =>
    unfold nameRest
    split
    · simp only [List.length_cons]
      omega
    · simp

theorem length_readName {s rest : List Char} {name : String} (h : readName s = .ok (name, rest)) :
    rest.length ≤ s.length := by
  unfold readName at h
  split at h
  · rename_i c tail
    split at h
    · cases h
      have := length_nameRest tail
      simp only [List.length_cons]
      omega
    · split at h
      · cases h
        simp
      · cases h
  · cases h

theorem length_readParts {attrs attrs' : List Attr} {spreads spreads' : List String}
    {s rest : List Char} (h : readParts attrs spreads s = .ok (attrs', spreads', rest)) :
    rest.length ≤ s.length := by
  fun_induction readParts attrs spreads s with
  | case1 => cases h
  | case2 => cases h; exact Nat.le_refl _
  | case3 => cases h
  | case4 attrs spreads s new after hpart hlt _ _ ih =>
    have := ih h
    omega
  | case5 attrs spreads s expr after hpart hlt ih =>
    have := ih h
    omega

theorem length_readTail {name : String} {s : List Char} {child : String}
    (h : readTail name s = .ok (.expansion child)) : child.toList.length < s.length := by
  unfold readTail at h
  split at h <;> try cases h
  split at h
  · cases h
    simp only [trimmed, String.toList_ofList, List.length_cons]
    exact Nat.lt_succ_of_le (length_trim_le _)
  · cases h

theorem length_readMark (s : List Char) : (readMark s).2.length ≤ s.length := by
  unfold readMark
  split <;> simp

theorem length_expansion {s : List Char} {head : TagHead} {child : String}
    (h : read s = .ok head) (ht : head.tail = .expansion child) :
    child.toList.length < s.length := by
  unfold read at h
  cases hn : readName s with
  | error e => rw [hn] at h; cases h
  | ok nr =>
    obtain ⟨name, r₁⟩ := nr
    rw [hn] at h
    cases hp : readParts [] [] r₁ with
    | error e => simp only [bind, Except.bind, hp] at h; cases h
    | ok ps =>
      obtain ⟨attrs, spreads, r₂⟩ := ps
      cases htl : readTail name (readMark r₂).2 with
      | error e => simp only [bind, Except.bind, hp, htl] at h; cases h
      | ok tail =>
        simp only [bind, Except.bind, hp, htl, Except.ok.injEq] at h
        subst h
        simp only at ht
        subst ht
        have h1 := length_readName hn
        have h2 := length_readParts hp
        have h3 := length_readMark r₂
        have h4 := length_readTail htl
        omega

end Offside.TagHead
