import Offside.Proofs.IR.WellFormed

/-!
# Props as a whole

Whatever is given to a tag, its props come in a fixed arrangement: first the names that have an
entry of their own, in the order in which they are first given and with what they are last given,
then the styles, then the classes, then the spread expressions (`Props.gather_arranged`). There is
one way out of it. A name can be `&props` itself; then it keeps its place among the first, and the
spread expressions, if there are any, replace what it was given.

Props have one entry for each name, so it is enough to know their names in order and what they give
for each.
-/

set_option autoImplicit false

namespace Offside

open List

theorem Attr.collects_eq_false_iff {name : String} :
    Attr.collects name = false ↔ name ∉ ["class", "className", "style"] := by
  simp [Attr.collects, and_assoc]

namespace Props

/-! ## The arrangement -/

/-- The names that have an entry of their own, in the order in which they are first given. -/
def ownNames (given : List (String × PropEntry)) : List String :=
  ((Ordered.keys given).filter (· ∉ ["class", "className", "style"])).eraseDups

/-- The entry of such a name: what it is last given, unless the spread expressions take its
place. -/
def ownProp? (given : List (String × PropEntry)) (spreads : List String) (name : String) :
    Option PropEntry :=
  if name = "&props" ∧ spreads ≠ [] then some (.collected spreads) else Ordered.last? name given

/-- The expressions and flags that are given under some names, in order; content is left out. -/
def valuesUnder (names : List String) : List (String × PropEntry) → List String
  | [] => []
  | (name, .value v _ _) :: rest =>
    if name ∈ names then v.text :: valuesUnder names rest else valuesUnder names rest
  | _ :: rest => valuesUnder names rest

/-- A collection, unless it is empty. -/
def collection (name : String) (exprs : List String) : Props :=
  if exprs = [] then [] else [(name, .collected exprs)]

/-- The props of a tag that is given some entries and some spread expressions. -/
def aggregated (given : List (String × PropEntry)) (spreads : List String) : Props :=
  Ordered.entries (ownProp? given spreads) (ownNames given) ++
    collection "style" (valuesUnder ["style"] given) ++
    collection "class" (valuesUnder ["class", "className"] given) ++
    if "&props" ∈ ownNames given then [] else collection "&props" spreads

/-! ## Collections -/

variable {name : String} {exprs : List String} {props : Props}

theorem collected_eq_valuesUnder {p : String → Bool} {names : List String}
    (h : ∀ name, p name = true ↔ name ∈ names) (given : List (String × PropEntry)) :
    collected p given = valuesUnder names given := by
  induction given with
  | nil => rfl
  | cons e rest ih =>
    obtain ⟨name, entry⟩ := e
    rw [collected] at ih ⊢
    rw [filter_cons]
    -- Only values are collected, whatever else is given under the name.
    by_cases hname : p name = true
    · rw [if_pos hname]
      cases entry with
      | value v escaped args =>
        rw [valuesUnder, if_pos ((h name).mp hname), ← ih]
        rfl
      | content nodes escaped args | collected exprs | key key expr => exact ih
    · rw [if_neg hname]
      cases entry with
      | value v escaped args => rw [valuesUnder, if_neg (mt (h name).mpr hname), ih]
      | content nodes escaped args | collected exprs | key key expr => exact ih

theorem keys_insertCollected (key : String) (exprs : List String) (props : Props) :
    Ordered.keys (insertCollected key exprs props) =
      Ordered.keys props ++
        if key ∈ Ordered.keys props then [] else Ordered.keys (collection key exprs) := by
  unfold insertCollected collection
  by_cases hexprs : exprs = []
  · rw [if_pos (by simpa using hexprs), if_pos hexprs, show Ordered.keys ([] : Props) = [] from rfl,
      ite_self, append_nil]
  · rw [if_neg (by simpa using hexprs), if_neg hexprs]
    by_cases hkey : key ∈ Ordered.keys props
    · rw [Ordered.keys_insert_of_mem hkey, if_pos hkey, append_nil]
    · rw [Ordered.keys_insert_of_not_mem hkey, if_neg hkey]
      rfl

theorem get?_insertCollected (key : String) (exprs : List String) (props : Props) (name : String) :
    Ordered.get? name (insertCollected key exprs props) =
      if name = key ∧ exprs ≠ [] then some (.collected exprs) else Ordered.get? name props := by
  unfold insertCollected
  by_cases hexprs : exprs = []
  · simp [hexprs]
  · rw [if_neg (by simpa using hexprs), Ordered.get?_insert]
    simp [hexprs, eq_comm]

/-- The entries of a name under which there is a collection, and nothing otherwise. -/
theorem entries_collection (value? : String → Option PropEntry)
    (h : exprs ≠ [] → value? name = some (.collected exprs)) :
    Ordered.entries value? (Ordered.keys (collection name exprs)) = collection name exprs := by
  unfold collection
  by_cases hexprs : exprs = []
  · rw [if_pos hexprs]
    rfl
  · rw [if_neg hexprs]
    simp [Ordered.entries, Ordered.keys, h hexprs]

/-! ## Names and entries -/

/-- A name that is not collected is last given the same among the entries that are not. -/
theorem last?_filter (h : Attr.collects name = false) (given : List (String × PropEntry)) :
    Ordered.last? name (given.filter fun e => !Attr.collects e.1) = Ordered.last? name given := by
  rw [Ordered.last?, findRev?_eq_find?_reverse, ← filter_reverse, find?_filter, Ordered.last?,
    findRev?_eq_find?_reverse]
  congr 2
  funext e
  by_cases he : e.1 = name
  · simp [he, h]
  · simp [he]

theorem collects_of_mem_ownNames {given : List (String × PropEntry)} (h : name ∈ ownNames given) :
    Attr.collects name = false := by
  rw [ownNames, mem_eraseDups, mem_filter] at h
  exact Attr.collects_eq_false_iff.mpr (by simpa using h.2)

theorem keys_own (given : List (String × PropEntry)) :
    Ordered.keys (Ordered.ofPairs (given.filter fun e => !Attr.collects e.1)) = ownNames given := by
  have hnames : Ordered.keys (given.filter fun e => !Attr.collects e.1) =
      (Ordered.keys given).filter (· ∉ ["class", "className", "style"]) := by
    rw [Ordered.keys, Ordered.keys, filter_map]
    congr 2
    funext e
    rw [Function.comp_apply, Bool.eq_iff_iff, Bool.not_eq_true', Attr.collects_eq_false_iff,
      decide_eq_true_iff]
  rw [Ordered.keys_ofPairs, hnames, ownNames]

/-- Gathering in terms of what is given under the collected names. -/
theorem gather_eq (given : List (String × PropEntry)) (spreads : List String) :
    gather given spreads =
      (Ordered.ofPairs (given.filter fun e => !Attr.collects e.1)
        |> insertCollected "style" (valuesUnder ["style"] given)
        |> insertCollected "class" (valuesUnder ["class", "className"] given)
        |> insertCollected "&props" spreads) := by
  have hstyles : collected (· == "style") given = valuesUnder ["style"] given :=
    collected_eq_valuesUnder (by simp) given
  have hclasses : collected (fun name => name == "class" || name == "className") given =
      valuesUnder ["class", "className"] given :=
    collected_eq_valuesUnder (by simp) given
  rw [gather, hstyles, hclasses, spreadKey]

theorem eq_of_mem_keys_collection {key : String}
    (h : key ∈ Ordered.keys (collection name exprs)) : key = name := by
  unfold collection at h
  split at h
  · cases h
  · exact mem_singleton.mp h

/-- The names of props in order. -/
theorem keys_gather (given : List (String × PropEntry)) (spreads : List String) :
    Ordered.keys (gather given spreads) =
      ownNames given ++ Ordered.keys (collection "style" (valuesUnder ["style"] given)) ++
        Ordered.keys (collection "class" (valuesUnder ["class", "className"] given)) ++
        if "&props" ∈ ownNames given then [] else Ordered.keys (collection "&props" spreads) := by
  have hcollected (key : String) (h : Attr.collects key = true) : key ∉ ownNames given := by
    intro hmem
    rw [collects_of_mem_ownNames hmem] at h
    cases h
  -- No collection has the name of one before it, so each comes behind all before it.
  have hstyle := hcollected "style" rfl
  have hclass : "class" ∉
      ownNames given ++ Ordered.keys (collection "style" (valuesUnder ["style"] given)) := by
    rw [mem_append, not_or]
    exact ⟨hcollected "class" rfl, fun hmem => absurd (eq_of_mem_keys_collection hmem) (by decide)⟩
  have hspread : "&props" ∈
      ownNames given ++ Ordered.keys (collection "style" (valuesUnder ["style"] given)) ++
        Ordered.keys (collection "class" (valuesUnder ["class", "className"] given)) ↔
      "&props" ∈ ownNames given := by
    rw [mem_append, mem_append, or_assoc]
    refine or_iff_left ?_
    rintro (hmem | hmem)
    · exact absurd (eq_of_mem_keys_collection hmem) (by decide)
    · exact absurd (eq_of_mem_keys_collection hmem) (by decide)
  rw [gather_eq, keys_insertCollected, keys_insertCollected, keys_insertCollected, keys_own,
    if_neg hstyle, if_neg hclass]
  simp only [hspread]

/-- What the props give for a name. -/
theorem get?_gather (given : List (String × PropEntry)) (spreads : List String) (name : String) :
    Ordered.get? name (gather given spreads) =
      if name = "&props" ∧ spreads ≠ [] then some (.collected spreads)
      else if name = "class" ∧ valuesUnder ["class", "className"] given ≠ [] then
        some (.collected (valuesUnder ["class", "className"] given))
      else if name = "style" ∧ valuesUnder ["style"] given ≠ [] then
        some (.collected (valuesUnder ["style"] given))
      else Ordered.last? name (given.filter fun e => !Attr.collects e.1) := by
  rw [gather_eq, get?_insertCollected, get?_insertCollected, get?_insertCollected,
    Ordered.get?_ofPairs]

/-! ## All props -/

/-- The props of a tag are arranged as they should be. -/
theorem gather_eq_aggregated (given : List (String × PropEntry)) (spreads : List String) :
    gather given spreads = aggregated given spreads := by
  have hown : Ordered.entries (Ordered.get? · (gather given spreads)) (ownNames given) =
      Ordered.entries (ownProp? given spreads) (ownNames given) := by
    refine filterMap_congr fun name hname => ?_
    have hname := collects_of_mem_ownNames hname
    have hne (key : String) (h : Attr.collects key = true) : name ≠ key := by
      rintro rfl
      rw [hname] at h
      cases h
    simp only [get?_gather, ownProp?, hne "class" rfl, hne "style" rfl, false_and, if_false,
      last?_filter hname]
  have hstyle (h : valuesUnder ["style"] given ≠ []) :
      Ordered.get? "style" (gather given spreads) =
        some (.collected (valuesUnder ["style"] given)) := by
    rw [get?_gather, if_neg (by simp), if_neg (by simp), if_pos ⟨rfl, h⟩]
  have hclass (h : valuesUnder ["class", "className"] given ≠ []) :
      Ordered.get? "class" (gather given spreads) =
        some (.collected (valuesUnder ["class", "className"] given)) := by
    rw [get?_gather, if_neg (by simp), if_pos ⟨rfl, h⟩]
  have hspread (h : spreads ≠ []) :
      Ordered.get? "&props" (gather given spreads) = some (.collected spreads) := by
    rw [get?_gather, if_pos ⟨rfl, h⟩]
  -- A map is what it gives for its names in order, and both are known.
  rw [← Ordered.entries_get? (WellFormed.gather given spreads).nodup, keys_gather,
    Ordered.entries_append, Ordered.entries_append, Ordered.entries_append, aggregated, hown,
    entries_collection _ hstyle, entries_collection _ hclass]
  split
  · rfl
  · rw [entries_collection _ hspread]

theorem namePath_of_flag {escaped : Option Bool} {args : Option String}
    (h : Attr.collects name = false) (rest : List (String × PropEntry)) :
    namePath ((name, .value (.flag true) escaped args) :: rest) =
      ("path", .value (.expr (Json.quote name)) escaped args) :: rest := by
  rw [namePath, if_neg (by simp [h])]

/-- Without a flag in first place, other than a class or a style, nothing is taken for a path. -/
theorem namePath_of_no_flag {given : List (String × PropEntry)}
    (h : ∀ name escaped args rest, given = (name, .value (.flag true) escaped args) :: rest →
      Attr.collects name = true) : namePath given = given := by
  unfold namePath
  split
  · rename_i name escaped args rest
    rw [if_pos (h name escaped args rest rfl)]
  · rfl

/-- The props of a tag are arranged as they should be. So are those of a phrase, with a flag in
first place taken for its path. -/
theorem gather_arranged (given : List (String × PropEntry)) (spreads : List String) :
    gather given spreads = aggregated given spreads ∧
    (∀ name escaped args rest, given = (name, .value (.flag true) escaped args) :: rest →
      name ∉ ["class", "className", "style"] →
        gatherPhrase given spreads =
          aggregated (("path", .value (.expr (Json.quote name)) escaped args) :: rest) spreads) ∧
    ((∀ name escaped args rest, given = (name, .value (.flag true) escaped args) :: rest →
      name ∈ ["class", "className", "style"]) →
        gatherPhrase given spreads = aggregated given spreads) := by
  refine ⟨gather_eq_aggregated given spreads, ?path, fun hflag => ?plain⟩
  case path =>
    rintro name escaped args rest rfl hname
    rw [gatherPhrase, namePath_of_flag (Attr.collects_eq_false_iff.mpr hname),
      gather_eq_aggregated]
  case plain =>
    have hcollects : ∀ name escaped args rest,
        given = (name, .value (.flag true) escaped args) :: rest → Attr.collects name = true := by
      intro name escaped args rest hgiven
      by_contra hne
      exact Attr.collects_eq_false_iff.mp (Bool.eq_false_iff.mpr hne)
        (hflag name escaped args rest hgiven)
    rw [gatherPhrase, namePath_of_no_flag hcollects, gather_eq_aggregated]

/-- Names that are given again, content among them, and `&props` among the names. -/
theorem gather_arranged_repeats :
    gather
        [("a", .value (.flag true) (some true) none), ("className", .value (.flag true) none none),
          ("&props", .value (.expr "x") (some true) none), ("style", .content [] none none),
          ("path", .value (.expr "y") (some false) none), ("a", .content [] none (some "z")),
          ("class", .value (.expr "c") none none)] ["s"] =
      [("a", .content [] none (some "z")), ("&props", .collected ["s"]),
        ("path", .value (.expr "y") (some false) none), ("class", .collected ["true", "c"])] ∧
    gatherPhrase
        [("a", .value (.flag true) (some true) none), ("&props", .value (.expr "x") none none),
          ("path", .value (.expr "y") (some false) none), ("b", .value (.flag true) none none)] [] =
      [("path", .value (.expr "y") (some false) none), ("&props", .value (.expr "x") none none),
        ("b", .value (.flag true) none none)] :=
  ⟨(gather_arranged _ _).1.trans rfl,
    ((gather_arranged _ _).2.1 _ _ _ _ rfl (by decide)).trans rfl⟩

end Props

end Offside
