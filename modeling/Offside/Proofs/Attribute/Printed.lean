import Offside.Proofs.Attribute.Items
import Offside.Proofs.Tag.Written

/-!
# Attribute lists that are printed

An attribute is printed as its name, or as its name, a sign and its expression, and a list of them
with commas in between. The expression can be anything the scanner does not cut: closed, without a
comma outside quotes and brackets, and with an operator at every white space there
(`Attr.IsValue`). Such a list is read back, whatever comes after it (`Attr.scanList_printList`).
-/

set_option autoImplicit false

namespace Offside

open List

/-- What a scan goes through without a bracket or a comma is closed. -/
theorem Scan.Runs.closed {xs : List Char} (h : Runs start xs start) : Closed xs := by
  have hrun {s s' : Scan} {xs : List Char} (h : Runs s xs s') :
      s.stays xs = true ∧ s.after xs = s' := by
    induction h with
    | nil s => exact ⟨rfl, rfl⟩
    | @cons s s' c rest hc _ ih =>
      refine ⟨?_, ih.2⟩
      rw [stays, ih.1, Bool.and_true, Bool.not_eq_true', Bool.and_eq_false_iff]
      by_cases htop : s.isTop = true
      · exact .inr (hc htop).1
      · exact .inl (Bool.not_eq_true _ ▸ htop)
  exact ⟨(hrun h).1, (hrun h).2⟩

namespace Attr

open Text

/-! ## What is printed -/

/-- The text can be the expression of an attribute. The last two conditions are about characters
that stand outside quotes and brackets: none is a comma, and white space has an operator right
before it or right after it. -/
structure IsValue (e : List Char) : Prop where
  ne_nil : e ≠ []
  trimmed : trim e = e
  closed : Scan.Closed e
  uncut : ∀ before c rest, e = before ++ c :: rest → (Scan.start.after before).isTop = true →
    c ≠ ','
  tied : ∀ before c rest, e = before ++ c :: rest → (Scan.start.after before).isTop = true →
    isSpace c = true →
      (trimEnd before).getLast?.any isOperator = true ∨
        (trimStart rest).head?.any isOperator = true

/-- What holds at every character of a text can be decided. -/
instance decidableForallChar (e : List Char) (P : List Char → Char → List Char → Prop)
    [∀ before c rest, Decidable (P before c rest)] :
    Decidable (∀ before c rest, e = before ++ c :: rest → P before c rest) :=
  have : Decidable (∀ i : Fin e.length, P (e.take i) (e.get i) (e.drop (i + 1))) :=
    Nat.decidableForallFin _
  decidable_of_iff (∀ i : Fin e.length, P (e.take i) (e.get i) (e.drop (i + 1))) <| by
    constructor
    · rintro h before c rest rfl
      have hi := h ⟨before.length, by simp⟩
      simpa using hi
    · intro h i
      exact h _ _ _ (by simp)

instance (e : List Char) : Decidable (IsValue e) :=
  decidable_of_iff
    (e ≠ [] ∧ trim e = e ∧ Scan.Closed e ∧
      (∀ before c rest, e = before ++ c :: rest → (Scan.start.after before).isTop = true →
        c ≠ ',') ∧
      ∀ before c rest, e = before ++ c :: rest → (Scan.start.after before).isTop = true →
        isSpace c = true →
          (trimEnd before).getLast?.any isOperator = true ∨
            (trimStart rest).head?.any isOperator = true)
    ⟨fun h => ⟨h.1, h.2.1, h.2.2.1, h.2.2.2.1, h.2.2.2.2⟩,
      fun h => ⟨h.ne_nil, h.trimmed, h.closed, h.uncut, h.tied⟩⟩

/-- The attribute can be printed: it has a plain name, and it is a flag that is set or has an
expression that is not cut. -/
inductive Printable : Attr → Prop
  | flag {name : String} (hname : IsBareName name.toList) : Printable ⟨name, .flag true, true⟩
  | expr {name e : String} (hname : IsBareName name.toList) (he : IsValue e.toList)
      (escaped : Bool) : Printable ⟨name, .expr e, escaped⟩

/-- An attribute in print. -/
def print (a : Attr) : List Char :=
  match a.value with
  | .flag _ => a.name.toList
  | .expr e => a.name.toList ++ (sign a.escaped ++ e.toList)

/-- What stands between the parentheses of a printed list. -/
def printItems (attrs : List Attr) : List Char :=
  [',', ' '].intercalate (attrs.map print)

/-- A list of attributes in print. -/
def printList (attrs : List Attr) : List Char :=
  '(' :: (printItems attrs ++ [')'])

theorem printItems_cons_cons (a b : Attr) (attrs : List Attr) :
    printItems (a :: b :: attrs) = print a ++ ',' :: ' ' :: printItems (b :: attrs) := by
  rw [printItems, map_cons, map_cons, intercalate_cons_cons, append_assoc]
  rfl

/-! ## Expressions -/

theorem startsNew_eq_false {current next : List Char}
    (h : current.getLast?.any isOperator = true ∨ next.head?.any isOperator = true) :
    startsNew current next = false := by
  unfold startsNew
  cases hlast : current.getLast? with
  | none => rfl
  | some last =>
    cases hfirst : next.head? with
    | none => rfl
    | some first =>
      rw [hlast, hfirst] at h
      rcases h with h | h
      · simp [show isOperator last = true from h]
      · simp [show isOperator first = true from h]

/-- No white space is trimmed in front of a text that starts with something else. -/
theorem trimStart_append {front : List Char} (hne : front ≠ [])
    (hfront : ∀ x ∈ front, isSpace x = false) (x : List Char) :
    trimStart (front ++ x) = front ++ x := by
  obtain ⟨c, front, rfl⟩ := exists_cons_of_ne_nil hne
  exact dropWhile_cons_of_neg (by simp [hfront c mem_cons_self])

namespace IsValue

variable {front e before rest : List Char} {c : Char}

/-- White space in an expression comes after something else. -/
theorem trimEnd_ne_nil (he : IsValue e) (heq : e = before ++ c :: rest) (hc : isSpace c = true) :
    trimEnd before ≠ [] := by
  have hstart : trimStart e = e := by
    rw [← he.trimmed, trimStart_trim]
  have hhead := head?_dropWhile_not isSpace e
  rw [show e.dropWhile isSpace = e from hstart, heq] at hhead
  cases before with
  | nil => simp [hc] at hhead
  | cons x before =>
    rw [trimEnd_eq_rdropWhile, Ne, rdropWhile_eq_nil_iff]
    intro hall
    simp [hall x mem_cons_self] at hhead

/-- White space in an expression does not start a new attribute. -/
theorem startsNew_eq_false (he : IsValue e) (hne : front ≠ [])
    (hfront : ∀ x ∈ front, isSpace x = false) (heq : e = before ++ c :: rest)
    (htop : (Scan.start.after before).isTop = true) (hc : isSpace c = true) (more : List Char) :
    startsNew (trim (front ++ before)) (trimStart (rest ++ more)) = false := by
  have hbefore := he.trimEnd_ne_nil heq hc
  refine Attr.startsNew_eq_false ?_
  rw [trim, trimStart_append hne hfront, trimEnd_append front hbefore,
    getLast?_append_of_ne_nil _ hbefore]
  rcases he.tied before c rest heq htop hc with hlast | hfirst
  · exact .inl hlast
  · refine .inr ?_
    have hrest : ((rest.dropWhile isSpace).isEmpty) = false := by
      rw [isEmpty_eq_false_iff]
      intro hnil
      rw [trimStart, hnil] at hfirst
      cases hfirst
    rw [trimStart, dropWhile_append, hrest, if_neg Bool.false_ne_true, head?_append]
    rw [trimStart] at hfirst
    cases hhead : (rest.dropWhile isSpace).head? with
    | none => rw [hhead] at hfirst; cases hfirst
    | some first => rwa [hhead] at hfirst

/-- An expression is part of the item under way. -/
theorem splitItems_append (he : IsValue e) (hne : front ≠ [])
    (hfront : ∀ x ∈ front, isSpace x = false) (more : List Char) :
    splitItems .start front (e ++ more) = splitItems .start (front ++ e) more := by
  -- By what is left of the expression, with what has been read of it kept along: the conditions on
  -- values speak of both.
  suffices hrun : ∀ rest before, e = before ++ rest →
      splitItems (Scan.start.after before) (front ++ before) (rest ++ more) =
        splitItems .start (front ++ e) more by
    simpa using hrun e [] rfl
  intro rest
  induction rest with
  | nil =>
    intro before heq
    rw [append_nil] at heq
    rw [← heq, he.closed.ends, nil_append]
  | cons c rest ih =>
    intro before heq
    have hnext := ih (before ++ [c]) (by simp [heq])
    rw [Scan.after_append, Scan.after_cons, Scan.after_nil, ← append_assoc] at hnext
    rw [cons_append, splitItems]
    by_cases htop : (Scan.start.after before).isTop = true
    · have hcomma : c ≠ ',' := he.uncut before c rest heq htop
      rw [if_neg (by simp [hcomma])]
      by_cases hc : isSpace c = true
      · have hkept : (front ++ before).isEmpty = false := by simp [hne]
        rw [if_pos (by simp [htop, hc]), he.startsNew_eq_false hne hfront heq htop hc, hkept,
          if_neg Bool.false_ne_true, if_neg Bool.false_ne_true, ← hnext,
          next_of_separator htop (.inr hc)]
      · rw [if_neg (by simp [hc]), hnext]
    · rw [if_neg (by simp [htop]), if_neg (by simp [htop]), hnext]

end IsValue

/-! ## Items -/

/-- The text is an item of its own, up to the comma behind it. -/
structure IsItem (x : List Char) : Prop where
  ne_nil : x ≠ []
  trimmed : trim x = x
  closed : Scan.Closed x
  kept : ∀ more, splitItems .start [] (x ++ more) = splitItems .start x more

theorem IsItem.pushItem {x : List Char} (h : IsItem x) (items : List (List Char)) :
    Attr.pushItem x items = x :: items := by
  rw [Attr.pushItem, h.trimmed, if_neg]
  simpa using h.ne_nil

theorem isSpace_of_isInert {c : Char} (h : Scan.isInert c = true) : isSpace c = false := by
  simp only [Scan.isInert, Bool.and_eq_true, Bool.not_eq_true'] at h
  exact h.2

/-- Characters that mean nothing to a scan make an item. -/
theorem isItem_inert {x : List Char} (hne : x ≠ []) (hx : ∀ c ∈ x, Scan.isInert c = true) :
    IsItem x where
  ne_nil := hne
  trimmed := by
    have hspace (c : Char) (hc : c ∈ x) : isSpace c = false := isSpace_of_isInert (hx c hc)
    refine trim_eq_self (head?_eq_some_head hne) (hspace _ (head_mem hne))
      (getLast?_eq_some_getLast hne) (hspace _ (getLast_mem hne))
  closed := (Scan.runs_inert hx).closed
  kept more := (Scan.runs_inert hx).splitItems [] more

/-- So do such characters with an expression behind them. -/
theorem IsItem.append_value {x e : List Char} (hx : IsItem x) (hspace : ∀ c ∈ x, isSpace c = false)
    (he : IsValue e) : IsItem (x ++ e) where
  ne_nil := append_ne_nil_of_left_ne_nil hx.ne_nil e
  trimmed := by
    have hend : trimEnd e = e := by
      rw [← he.trimmed]
      exact tidy_iff.mp (tidy_trim e)
    have hne : trimEnd e ≠ [] := by rw [hend]; exact he.ne_nil
    rw [trim, trimStart_append hx.ne_nil hspace, trimEnd_append x hne, hend]
  closed := hx.closed.append he.closed
  kept more := by
    rw [append_assoc, hx.kept, he.splitItems_append hx.ne_nil hspace]

/-- Nothing in front of an expression means anything to a scan. -/
theorem isInert_front {name : List Char} (hname : IsBareName name) (escaped : Bool) :
    ∀ c ∈ name ++ sign escaped, Scan.isInert c = true := by
  have hsign : ∀ c ∈ sign escaped, Scan.isInert c = true := by
    cases escaped with
    | true => exact all_eq_true.mp rfl
    | false => exact all_eq_true.mp rfl
  intro c hc
  rcases mem_append.mp hc with hc | hc
  · exact (hname.2 c hc).1
  · exact hsign c hc

variable {a : Attr} {attrs : List Attr}

theorem Printable.isItem (h : Printable a) : IsItem (print a) := by
  cases h with
  | flag hname => exact isItem_inert hname.1 fun c hc => (hname.2 c hc).1
  | expr hname he escaped =>
    have hfront := isInert_front hname escaped
    have hne := append_ne_nil_of_left_ne_nil hname.1 (sign escaped)
    have hitem := (isItem_inert hne hfront).append_value
      (fun c hc => isSpace_of_isInert (hfront c hc)) he
    rwa [append_assoc] at hitem

/-- A printed attribute is read back. -/
theorem Printable.readItem (h : Printable a) : readItem (print a) = .ok a := by
  cases h with
  | @flag name hname =>
    -- The name ends with the item, so nothing is put behind it.
    have hsplit : splitName (name.toList ++ []) = .ok (name.toList, []) :=
      splitName_bare hname rfl
    rw [append_nil] at hsplit
    rw [Attr.readItem, print, hsplit]
    simp only [bind, Except.bind, String.ofList_toList]
    rfl
  | @expr name e hname he escaped =>
    have hread := readItem_value hname he.ne_nil he.trimmed escaped
    rwa [String.ofList_toList, String.ofList_toList] at hread

/-! ## Lists -/

/-- The commas between printed attributes part them. -/
theorem splitItems_printItems (h : ∀ a ∈ attrs, Printable a) :
    splitItems .start [] (printItems attrs) = attrs.map print := by
  induction attrs with
  | nil => rfl
  | cons a attrs ih =>
    obtain ⟨ha, hattrs⟩ := forall_mem_cons.mp h
    have hitem := ha.isItem
    cases attrs with
    | nil =>
      have hlast := hitem.kept []
      rw [append_nil, splitItems, hitem.pushItem] at hlast
      simpa [printItems] using hlast
    | cons b attrs =>
      -- The space behind the comma comes before anything of the next item.
      have hspace : splitItems .start [] (' ' :: printItems (b :: attrs)) =
          splitItems .start [] (printItems (b :: attrs)) := rfl
      rw [printItems_cons_cons, hitem.kept, splitItems, if_pos (by decide), hitem.pushItem, hspace,
        ih hattrs]
      rfl

theorem closed_printItems (h : ∀ a ∈ attrs, Printable a) : Scan.Closed (printItems attrs) := by
  induction attrs with
  | nil => exact .nil
  | cons a attrs ih =>
    obtain ⟨ha, hattrs⟩ := forall_mem_cons.mp h
    cases attrs with
    | nil => simpa [printItems] using ha.isItem.closed
    | cons b attrs =>
      have hcomma : Scan.Closed [',', ' '] := by decide
      rw [printItems_cons_cons]
      exact ha.isItem.closed.append (hcomma.append (ih hattrs))

/-- A printed list is read back with its length, whatever comes after it. -/
theorem scanList_printList (h : ∀ a ∈ attrs, Printable a) (rest : List Char) :
    scanList (printList attrs ++ rest) = .ok (attrs, bytes (printList attrs)) := by
  have hread : (attrs.map print).mapM readItem = .ok attrs := by
    induction attrs with
    | nil => rfl
    | cons a attrs ih =>
      obtain ⟨ha, hattrs⟩ := forall_mem_cons.mp h
      rw [map_cons, mapM_cons, ha.readItem, ih hattrs]
      rfl
  refine scanList_eq_ok_iff.mpr ⟨printItems attrs, ')', rest, rfl, ?_, closed_printItems h, ?_, rfl⟩
  · rw [printList, cons_append, append_assoc, singleton_append]
  · rw [splitItems_printItems h, hread]

theorem scanList_printList_quotes :
    scanList ("(checked, href=base + f(\", )\", x), é!=`]$\x7bb\x7d` ? [1, 2] : 'it\\'s'" ++
        ") text").toList =
      .ok ([⟨"checked", .flag true, true⟩, ⟨"href", .expr "base + f(\", )\", x)", true⟩,
        ⟨"é", .expr "`]$\x7bb\x7d` ? [1, 2] : 'it\\'s'", false⟩], 66) := by
  have hname (name : List Char) (hne : name ≠ [])
      (hall : (name.all fun c => Scan.isInert c && (c != '=' && c != '!')) = true) :
      IsBareName name := by
    refine ⟨hne, fun c hc => ?_⟩
    simpa using all_eq_true.mp hall c hc
  have hprint : ∀ a ∈ [⟨"checked", .flag true, true⟩,
      ⟨"href", .expr "base + f(\", )\", x)", true⟩,
      ⟨"é", .expr "`]$\x7bb\x7d` ? [1, 2] : 'it\\'s'", false⟩], Printable a := by
    refine forall_mem_cons.mpr ⟨?_, forall_mem_cons.mpr ⟨?_, forall_mem_singleton.mpr ?_⟩⟩
    · exact .flag (hname _ (by decide) rfl)
    · exact .expr (hname _ (by decide) rfl) (by decide +kernel) true
    · exact .expr (hname _ (by decide) rfl) (by decide +kernel) false
  exact scanList_printList hprint " text".toList

end Attr

end Offside
