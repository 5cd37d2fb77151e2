import Offside.Attribute
import Offside.Attribute.Bracket
import Offside.Text.Space

/-!
# Attribute lists

An attribute list stands in parentheses. Its items end at a comma, or at white space that is
followed by something that looks like a new attribute rather than the rest of an expression. Quotes
and brackets are respected throughout.

    (href="/", title=user.name)
    (type="checkbox" checked)
    (data-x != raw, class=[a, b])
-/

set_option autoImplicit false

namespace Offside.Attr

open Text

/-! ## Items -/

/-- Characters that tie an expression together across white space. -/
def isOperator (c : Char) : Bool :=
  "+-*/%&|^?:<>=!,.~([".toList.contains c

/-- White space parts two attributes when the text before it can end one and the text after it can
start one. Both are trimmed. -/
def startsNew (current next : List Char) : Bool :=
  match current.getLast?, next.head? with
  | some last, some first => !isOperator last && !isOperator first
  | _, _ => false

/-- The item collected so far in front of the items after it; white space alone is no item. -/
def pushItem (current : List Char) (items : List (List Char)) : List (List Char) :=
  if (trim current).isEmpty then items else trim current :: items

/-- The items of the text between the parentheses, `current` being the part of the item under way
that has been read. -/
def splitItems (scan : Scan) (current : List Char) : List Char → List (List Char)
  | [] => pushItem current []
  | c :: rest =>
    if scan.isTop && c == ',' then pushItem current (splitItems scan [] rest)
    else if scan.isTop && isSpace c then
      if startsNew (trim current) (trimStart rest) then pushItem current (splitItems scan [] rest)
      else if current.isEmpty then splitItems scan [] rest
      else splitItems scan (current ++ [c]) rest
    else splitItems (scan.next c) (current ++ [c]) rest

/-! ## One item -/

/-- Cut an item after its bare name, which ends at white space, at `=` or at `!=`. -/
def splitBareName : List Char → List Char × List Char
  | [] => ([], [])
  | c :: rest =>
    if isSpace c || c == '=' || (c == '!' && rest.head? == some '=') then ([], c :: rest)
    else
      let (name, after) := splitBareName rest
      (c :: name, after)

/-- Cut an item after its name, which may be quoted. -/
def splitName (item : List Char) : Except AttrFault (List Char × List Char) :=
  match item with
  | [] => .error (.missingName "")
  | q :: rest =>
    if q == '\x22' || q == '\x27' then
      match rest.dropWhile (· != q) with
      | [] => .error (.openName (String.ofList item))
      | _ :: after => .ok (rest.takeWhile (· != q), after)
    else
      match splitBareName item with
      | ([], _) => .error (.missingName (String.ofList item))
      | (name, after) => .ok (name, after)

/-- An attribute with an expression, which must not be empty. -/
def withValue (name : String) (value : List Char) (escaped : Bool) : Except AttrFault Attr :=
  if (trim value).isEmpty then .error (.missingValue name)
  else .ok ⟨name, .expr (trimmed value), escaped⟩

/-- Read one item: a name alone, or a name with `=` or `!=` and an expression. -/
def readItem (item : List Char) : Except AttrFault Attr := do
  let (name, rest) ← splitName item
  let name := String.ofList name
  match trimStart rest with
  | [] => .ok ⟨name, .flag true, true⟩
  | '!' :: '=' :: value => withValue name value false
  | '=' :: value => withValue name value true
  | rest => .error (.trailing (String.ofList rest) name)

/-! ## The list -/

/-- Read an attribute list at the start of a text: its attributes, and what follows the list. -/
def readList (s : List Char) : Except AttrFault (List Attr × List Char) :=
  match s with
  | '(' :: rest =>
    match Scan.start.inside rest with
    | none => .error .unterminated
    | some (inner, after) => do
      let attrs ← (splitItems .start [] inner).mapM readItem
      .ok (attrs, after)
  | _ => .error .notOpened

/-- Read an attribute list: its attributes, and how many bytes it takes. -/
def scanList (s : List Char) : Except AttrFault (List Attr × Nat) := do
  let (attrs, after) ← readList s
  .ok (attrs, bytes s - bytes after)

theorem length_readList {s after : List Char} {attrs : List Attr}
    (h : readList s = .ok (attrs, after)) : after.length < s.length := by
  unfold readList at h
  split at h
  · rename_i rest
    split at h
    · cases h
    · rename_i inner after' hin
      have hlen := Scan.length_inside hin
      cases hm : (splitItems .start [] inner).mapM readItem with
      | error e => rw [hm] at h; cases h
      | ok as =>
        rw [hm] at h
        cases h
        simp only [List.length_cons]
        omega
  · cases h

end Offside.Attr
