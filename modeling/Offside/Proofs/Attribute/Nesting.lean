import Offside.Proofs.Attribute.Scan

/-!
# Brackets that belong together

`Nested` is the grammar of texts in which every bracket outside quotes has its partner. It has a
parameter, the pairs of brackets that may be partners. When any opening bracket may be the partner
of any closing one, these are the closed texts of the scan (`nested_iff_closed`). The kinds of the
brackets are a condition of their own (`fits`): nested kind by kind is what is nested and fits
(`nested_iff_fits`).

The reader of attribute lists counts brackets and does not compare their kinds. So what it takes is
nested, but kind by kind only where the kinds fit (`Attr.scanList_nested`).
-/

set_option autoImplicit false

namespace Offside

/-! ## The grammar -/

/-- What stands between two marks `q`: no such mark, unless behind a backslash. -/
inductive QuotedText (q : Char) : List Char → Prop
  | nil : QuotedText q []
  | char {c : Char} {rest : List Char} (hmark : c ≠ q) (hescape : c ≠ '\x5c')
      (hrest : QuotedText q rest) : QuotedText q (c :: rest)
  | escape (c : Char) {rest : List Char} (hrest : QuotedText q rest) :
      QuotedText q ('\x5c' :: c :: rest)

/-- Every bracket of the text that is not in quotes has a partner, `pairs` being the brackets that
can be partners. -/
inductive Nested (pairs : Char → Char → Bool) : List Char → Prop
  | nil : Nested pairs []
  | plain {c : Char} {rest : List Char} (hquote : isQuoteMark c = false)
      (hopening : isOpening c = false) (hclosing : isClosing c = false)
      (hrest : Nested pairs rest) : Nested pairs (c :: rest)
  | quoted {q : Char} {body rest : List Char} (hq : isQuoteMark q = true)
      (hbody : QuotedText q body) (hrest : Nested pairs rest) :
      Nested pairs (q :: (body ++ q :: rest))
  | group {o c : Char} {inner rest : List Char} (ho : isOpening o = true) (hc : isClosing c = true)
      (hpair : pairs o c = true) (hinner : Nested pairs inner) (hrest : Nested pairs rest) :
      Nested pairs (o :: (inner ++ c :: rest))

/-- Any two brackets. -/
def anyKind (_ _ : Char) : Bool :=
  true

/-- Two brackets of one kind. -/
def sameKind (o c : Char) : Bool :=
  o == '(' && c == ')' || o == '[' && c == ']' || o == '\x7b' && c == '\x7d'

variable {pairs : Char → Char → Bool} {text : List Char}

theorem Nested.toAnyKind (h : Nested pairs text) : Nested anyKind text := by
  induction h with
  | nil => exact .nil
  | plain hquote hopening hclosing _ ih => exact .plain hquote hopening hclosing ih
  | quoted hq hbody _ ih => exact .quoted hq hbody ih
  | group ho hc _ _ _ ihinner ihrest => exact .group ho hc rfl ihinner ihrest

theorem of_isQuoteMark {c : Char} (h : isQuoteMark c = true) :
    isOpening c = false ∧ isClosing c = false ∧ c ≠ '\x5c' := by
  simp only [isQuoteMark, Bool.or_eq_true, beq_iff_eq] at h
  rcases h with (rfl | rfl) | rfl <;> decide

theorem not_isClosing_of_isOpening {c : Char} (h : isOpening c = true) : isClosing c = false := by
  simp only [isOpening, Bool.or_eq_true, beq_iff_eq] at h
  rcases h with (rfl | rfl) | rfl <;> rfl

/-! ## Nested texts are closed -/

namespace Scan

variable {q : Char} {d : Nat} {body : List Char}

theorem next_of_mark (hq : isQuoteMark q = true) (d : Nat) :
    next ⟨.outside, d⟩ q = ⟨.inside q, d⟩ := by
  obtain ⟨hopening, hclosing, -⟩ := of_isQuoteMark hq
  simp [next, hopening, hclosing, Quoting.next, hq]

theorem next_mark_of_inside (hq : isQuoteMark q = true) (d : Nat) :
    next ⟨.inside q, d⟩ q = ⟨.outside, d⟩ := by
  obtain ⟨-, -, hescape⟩ := of_isQuoteMark hq
  rw [next_of_quoted (by simp)]
  simp [Quoting.next, hescape]

/-- In quotes nothing is closed. -/
theorem stays_cons_of_inside (q c : Char) (d : Nat) (rest : List Char) :
    stays ⟨.inside q, d⟩ (c :: rest) = stays (next ⟨.inside q, d⟩ c) rest := by
  rw [stays, show isTop ⟨.inside q, d⟩ = false from rfl, Bool.false_and]
  rfl

/-- The scan passes a quoted text and is still in the quotes. -/
theorem run_quotedText (hbody : QuotedText q body) (d : Nat) :
    after ⟨.inside q, d⟩ body = ⟨.inside q, d⟩ ∧ stays ⟨.inside q, d⟩ body = true := by
  induction hbody with
  | nil => exact ⟨rfl, rfl⟩
  | @char c rest hmark hescape _ ih =>
    have hnext : next ⟨.inside q, d⟩ c = ⟨.inside q, d⟩ := by
      rw [next_of_quoted (by simp)]
      simp [Quoting.next, hmark, hescape]
    rw [after_cons, stays_cons_of_inside, hnext]
    exact ih
  | escape c _ ih =>
    have hnext : next ⟨.escaped q, d⟩ c = ⟨.inside q, d⟩ := next_of_quoted (by simp)
    have hescaped : isTop ⟨.escaped q, d⟩ = false := rfl
    have hbackslash : next ⟨.inside q, d⟩ '\x5c' = ⟨.escaped q, d⟩ := rfl
    rw [after_cons, stays_cons_of_inside, hbackslash, after_cons, stays, hescaped, hnext]
    exact ih

/-- A nested text leaves a scan where it was, however many brackets are open. -/
theorem run_nested (h : Nested pairs text) (d : Nat) :
    after ⟨.outside, d⟩ text = ⟨.outside, d⟩ ∧ stays ⟨.outside, d⟩ text = true := by
  -- Inside a group one more bracket is open, so the depth is not fixed.
  induction h generalizing d with
  | nil => exact ⟨rfl, rfl⟩
  | @plain c rest hquote hopening hclosing _ ih =>
    have hnext : next ⟨.outside, d⟩ c = ⟨.outside, d⟩ := next_of_plain rfl hquote hopening hclosing
    rw [after_cons, stays, hclosing, Bool.and_false, hnext]
    exact ih d
  | @quoted q body rest hq hbody _ ih =>
    obtain ⟨-, hclosing, -⟩ := of_isQuoteMark hq
    obtain ⟨hafter, hstays⟩ := run_quotedText hbody d
    rw [after_cons, stays, hclosing, Bool.and_false, next_of_mark hq, after_append, stays_append,
      hafter, hstays, after_cons, stays_cons_of_inside, next_mark_of_inside hq]
    exact ih d
  | @group o c inner rest ho hc _ _ _ ihinner ihrest =>
    have hopening : next ⟨.outside, d⟩ o = ⟨.outside, d + 1⟩ := next_of_opening rfl ho
    have hclosing : next ⟨.outside, d + 1⟩ c = ⟨.outside, d⟩ := next_of_closing rfl hc
    have htop : isTop ⟨.outside, d + 1⟩ = false := isTop_deeper ⟨.outside, d⟩
    obtain ⟨hafter, hstays⟩ := ihinner (d + 1)
    rw [after_cons, stays, not_isClosing_of_isOpening ho, Bool.and_false, hopening, after_append,
      stays_append, hafter, hstays, after_cons, stays, htop, hclosing]
    exact ihrest d

/-! ## Closed texts are nested -/

/-- A scan that gets out of the quotes has passed a quoted text and the mark behind it. -/
theorem exists_quotedText (rest : List Char) :
    ((after ⟨.inside q, d⟩ rest).quoting = .outside →
      ∃ body rest', rest = body ++ q :: rest' ∧ QuotedText q body) ∧
    ((after ⟨.escaped q, d⟩ rest).quoting = .outside →
      ∃ c body rest', rest = c :: (body ++ q :: rest') ∧ QuotedText q body) := by
  -- Both statements at once, since a backslash leads from the first state to the second and the
  -- character behind it back.
  induction rest with
  | nil =>
    constructor <;>
    · intro h
      cases h
  | cons c rest ih =>
    constructor
    · intro h
      rw [after_cons, next_of_quoted (by simp)] at h
      by_cases hescape : c = '\x5c'
      · subst hescape
        obtain ⟨x, body, rest', rfl, hbody⟩ := ih.2 h
        exact ⟨'\x5c' :: x :: body, rest', rfl, .escape x hbody⟩
      by_cases hmark : c = q
      · exact ⟨[], rest, by rw [hmark]; rfl, .nil⟩
      · have hinside : Quoting.next (.inside q) c = .inside q := by
          simp [Quoting.next, hescape, hmark]
        rw [hinside] at h
        obtain ⟨body, rest', rfl, hbody⟩ := ih.1 h
        exact ⟨c :: body, rest', rfl, .char hmark hescape hbody⟩
    · intro h
      rw [after_cons, next_of_quoted (by simp)] at h
      obtain ⟨body, rest', rfl, hbody⟩ := ih.1 h
      exact ⟨c, body, rest', rfl, hbody⟩

/-- What comes after a part that leaves the scan at the start is closed if the whole is. -/
theorem Closed.of_append {xs ys : List Char} (h : Closed (xs ++ ys)) (hx : start.after xs = start) :
    Closed ys := by
  obtain ⟨hstays, hends⟩ := h
  rw [stays_append, hx, Bool.and_eq_true] at hstays
  rw [after_append, hx] at hends
  exact ⟨hstays.2, hends⟩

/-- A closed text that starts with an opening bracket has its partner further on. -/
theorem Closed.exists_group {o : Char} {rest : List Char} (ho : isOpening o = true)
    (h : Closed (o :: rest)) :
    ∃ inner c rest', rest = inner ++ c :: rest' ∧ isClosing c = true ∧ Closed inner ∧
      Closed rest' := by
  have hopening : start.next o = start.deeper := next_of_opening rfl ho
  cases hcut : start.inside rest with
  | none =>
    -- Then the bracket would still be open at the end.
    have hends := h.ends
    rw [after_cons, hopening, after_deeper (inside_eq_none_iff.mp hcut)] at hends
    exact absurd (congrArg Scan.depth hends) (Nat.succ_ne_zero _)
  | some cut =>
    obtain ⟨inner, rest'⟩ := cut
    obtain ⟨c, hc, rfl, hinner⟩ := Closed.inside_iff.mp hcut
    have hback : start.after (o :: (inner ++ [c])) = start := by
      have hclosing : start.deeper.next c = start := next_of_closing rfl hc
      rw [after_cons, hopening, after_append, after_deeper hinner.stays, hinner.ends, after_cons,
        hclosing, after_nil]
    refine ⟨inner, c, rest', rfl, hc, hinner, Closed.of_append ?_ hback⟩
    simpa using h

end Scan

/-- With any two brackets as partners, the nested texts are those that a scan finds closed. -/
theorem nested_iff_closed : Nested anyKind text ↔ Scan.Closed text := by
  constructor
  · intro h
    obtain ⟨hafter, hstays⟩ := Scan.run_nested h 0
    exact ⟨hstays, hafter⟩
  · intro h
    -- A group takes apart what is inside and what comes after it, so the induction is on lengths.
    induction hn : text.length using Nat.strongRecOn generalizing text with
    | ind n ih =>
      subst hn
      cases text with
      | nil => exact .nil
      | cons c rest =>
        have hstays := h.stays
        have hends := h.ends
        rw [Scan.stays, Bool.and_eq_true, Bool.not_eq_true', show Scan.start.isTop = true from rfl,
          Bool.true_and] at hstays
        by_cases hopening : isOpening c = true
        · obtain ⟨inner, d, rest', rfl, hd, hinner, hrest⟩ := h.exists_group hopening
          have hlength : inner.length + rest'.length < (c :: (inner ++ d :: rest')).length := by
            rw [List.length_cons, List.length_append, List.length_cons]
            omega
          exact .group hopening hd rfl
            (ih _ (Nat.lt_of_le_of_lt (Nat.le_add_right _ _) hlength) hinner rfl)
            (ih _ (Nat.lt_of_le_of_lt (Nat.le_add_left _ _) hlength) hrest rfl)
        by_cases hquote : isQuoteMark c = true
        · have hmark := Scan.next_of_mark hquote 0
          rw [Scan.after_cons, Scan.start, hmark] at hends
          obtain ⟨body, rest', rfl, hbody⟩ :=
            (Scan.exists_quotedText rest).1 (congrArg Scan.quoting hends)
          have hback : Scan.start.after (c :: (body ++ [c])) = .start := by
            rw [Scan.after_cons, Scan.start, hmark, Scan.after_append,
              (Scan.run_quotedText hbody 0).1, Scan.after_cons, Scan.next_mark_of_inside hquote]
            rfl
          have hrest : Scan.Closed rest' := by
            refine Scan.Closed.of_append ?_ hback
            simpa using h
          exact .quoted hquote hbody (ih _ (by simp; omega) hrest rfl)
        · rw [Bool.not_eq_true] at hopening hquote
          have hnext : Scan.start.next c = .start :=
            Scan.next_of_plain rfl hquote hopening hstays.1
          have hall : Scan.Closed ([c] ++ rest) := h
          have hrest : Scan.Closed rest := hall.of_append hnext
          exact .plain hquote hopening hstays.1 (ih _ (by simp) hrest rfl)

/-! ## Kinds -/

/-- Every closing bracket outside quotes fits the innermost bracket that is open before it, the open
brackets at the start being `opened`. -/
def fits (pairs : Char → Char → Bool) : List Char → Quoting → List Char → Bool
  | _, _, [] => true
  | opened, quoting, c :: rest =>
    if quoting == .outside && isOpening c then fits pairs (c :: opened) quoting rest
    else if quoting == .outside && isClosing c then
      opened.head?.all (pairs · c) && fits pairs opened.tail quoting rest
    else fits pairs opened (quoting.next c) rest

theorem fits_quotedText {q : Char} {body : List Char} (hbody : QuotedText q body)
    (opened rest : List Char) :
    fits pairs opened (.inside q) (body ++ rest) = fits pairs opened (.inside q) rest := by
  induction hbody with
  | nil => rfl
  | char hmark hescape _ ih => simp [fits, Quoting.next, hmark, hescape, ih]
  | escape c _ ih => simp [fits, Quoting.next, ih]

theorem fits_opening {o : Char} (ho : isOpening o = true) (opened rest : List Char) :
    fits pairs opened .outside (o :: rest) = fits pairs (o :: opened) .outside rest := by
  simp [fits, ho]

theorem fits_closing {o c : Char} (hc : isClosing c = true) (opened rest : List Char) :
    fits pairs (o :: opened) .outside (c :: rest) =
      (pairs o c && fits pairs opened .outside rest) := by
  simp [fits, hc, Scan.not_isOpening_of_isClosing hc]

theorem fits_plain {c : Char} (hquote : isQuoteMark c = false) (hopening : isOpening c = false)
    (hclosing : isClosing c = false) (opened rest : List Char) :
    fits pairs opened .outside (c :: rest) = fits pairs opened .outside rest := by
  simp [fits, hopening, hclosing, Quoting.next, hquote]

theorem fits_quoted {q : Char} {body : List Char} (hq : isQuoteMark q = true)
    (hbody : QuotedText q body) (opened rest : List Char) :
    fits pairs opened .outside (q :: (body ++ q :: rest)) = fits pairs opened .outside rest := by
  obtain ⟨hopening, hclosing, hescape⟩ := of_isQuoteMark hq
  have hin : fits pairs opened .outside (q :: (body ++ q :: rest)) =
      fits pairs opened (.inside q) (body ++ q :: rest) := by
    simp [fits, hopening, hclosing, Quoting.next, hq]
  rw [hin, fits_quotedText hbody]
  simp [fits, Quoting.next, hescape]

/-- What is open around a nested text has no part in how its brackets fit. -/
theorem fits_append (h : Nested anyKind text) (opened rest : List Char) :
    fits pairs opened .outside (text ++ rest) =
      (fits pairs [] .outside text && fits pairs opened .outside rest) := by
  -- The closing bracket of a group sees its own opening bracket on top of `opened`.
  induction h generalizing opened rest with
  | nil => rfl
  | plain hquote hopening hclosing _ ih =>
    rw [List.cons_append, fits_plain hquote hopening hclosing, fits_plain hquote hopening hclosing,
      ih]
  | quoted hq hbody _ ih =>
    rw [List.cons_append, List.append_assoc, List.cons_append, fits_quoted hq hbody,
      fits_quoted hq hbody, ih]
  | group ho hc _ _ _ ihinner ihrest =>
    rw [List.cons_append, List.append_assoc, List.cons_append, fits_opening ho, fits_opening ho,
      ihinner, ihinner, fits_closing hc, fits_closing hc, ihrest, Bool.and_assoc, Bool.and_assoc]

theorem fits_group {o c : Char} {inner : List Char} (ho : isOpening o = true)
    (hc : isClosing c = true) (hinner : Nested anyKind inner) (rest : List Char) :
    fits pairs [] .outside (o :: (inner ++ c :: rest)) =
      (fits pairs [] .outside inner && (pairs o c && fits pairs [] .outside rest)) := by
  rw [fits_opening ho, fits_append hinner, fits_closing hc]

/-- Nested kind by kind is nested with brackets that fit. -/
theorem nested_iff_fits :
    Nested pairs text ↔ Nested anyKind text ∧ fits pairs [] .outside text = true := by
  constructor
  · intro h
    refine ⟨h.toAnyKind, ?_⟩
    induction h with
    | nil => rfl
    | plain hquote hopening hclosing _ ih => rwa [fits_plain hquote hopening hclosing]
    | quoted hq hbody _ ih => rwa [fits_quoted hq hbody]
    | group ho hc hpair hinner _ ihinner ihrest =>
      rw [fits_group ho hc hinner.toAnyKind, ihinner, hpair, ihrest]
      rfl
  · rintro ⟨h, hfits⟩
    induction h with
    | nil => exact .nil
    | plain hquote hopening hclosing _ ih =>
      rw [fits_plain hquote hopening hclosing] at hfits
      exact .plain hquote hopening hclosing (ih hfits)
    | quoted hq hbody _ ih =>
      rw [fits_quoted hq hbody] at hfits
      exact .quoted hq hbody (ih hfits)
    | group ho hc _ hinner _ ihinner ihrest =>
      rw [fits_group ho hc hinner, Bool.and_eq_true, Bool.and_eq_true] at hfits
      exact .group ho hc hfits.2.1 (ihinner hfits.1) (ihrest hfits.2.2)

/-! ## Attribute lists -/

namespace Attr

open Text

variable {s : List Char}

/-- An item is never blamed for the end of its list. -/
theorem readItem_ends (item : List Char) :
    Ends (· ≠ .unterminated) (fun _ => True) (readItem item) := by
  have hvalue (name : String) (value : List Char) (escaped : Bool) :
      Ends (· ≠ .unterminated) (fun _ => True) (withValue name value escaped) := by
    unfold withValue
    split
    · exact AttrFault.noConfusion
    · trivial
  have hname : Ends (· ≠ .unterminated) (fun _ => True) (splitName item) := by
    unfold splitName
    split
    · exact AttrFault.noConfusion
    split
    · split
      · exact AttrFault.noConfusion
      · trivial
    · split
      · exact AttrFault.noConfusion
      · trivial
  refine hname.bind fun parts _ => ?_
  dsimp only
  split
  · trivial
  · exact hvalue _ _ _
  · exact hvalue _ _ _
  · exact AttrFault.noConfusion

theorem readItems_ends (items : List (List Char)) :
    Ends (· ≠ .unterminated) (fun _ => True) (items.mapM readItem) := by
  induction items with
  | nil => trivial
  | cons item items ih =>
    rw [List.mapM_cons]
    exact (readItem_ends item).bind fun _ _ => ih.bind fun _ _ => trivial

/-- A text is refused as unterminated exactly if no start of it is nested. -/
theorem scanList_eq_unterminated_iff {rest : List Char} :
    scanList ('(' :: rest) = .error .unterminated ↔
      ∀ list, list <+: '(' :: rest → Nested anyKind list → list = [] := by
  constructor
  · intro h list hprefix hnested
    cases list with
    | nil => rfl
    | cons o list =>
      obtain ⟨more, hmore⟩ := hprefix
      rw [List.cons_append, List.cons.injEq] at hmore
      obtain ⟨rfl, rfl⟩ := hmore
      -- The bracket has a partner, and there the text is cut: only an item can be at fault.
      obtain ⟨inner, c, rest', rfl, hc, hinner, -⟩ :=
        (nested_iff_closed.mp hnested).exists_group rfl
      have hcut : Scan.start.inside (inner ++ c :: rest' ++ more) = some (inner, rest' ++ more) :=
        Scan.Closed.inside_iff.mpr ⟨c, hc, by simp, hinner⟩
      have hends : Ends (· ≠ .unterminated) (fun _ => True)
          (scanList ('(' :: (inner ++ c :: rest' ++ more))) := by
        rw [scanList, readList, hcut]
        refine Ends.bind (P := fun _ => True) ?_ fun _ _ => trivial
        exact (readItems_ends _).bind fun _ _ => trivial
      rw [h] at hends
      exact absurd rfl hends
  · intro h
    cases hcut : Scan.start.inside rest with
    | none =>
      rw [scanList, readList, hcut]
      rfl
    | some cut =>
      obtain ⟨inner, after⟩ := cut
      obtain ⟨c, hc, rfl, hinner⟩ := Scan.Closed.inside_iff.mp hcut
      have hnested : Nested anyKind ('(' :: (inner ++ [c])) :=
        .group rfl hc rfl (nested_iff_closed.mpr hinner) .nil
      have hnil := h _ ⟨after, by simp⟩ hnested
      cases hnil

/-- The brackets of the text outside quotes are nested kind by kind, and it ends with a
parenthesis. -/
def IsBracketed (list : List Char) : Prop :=
  Nested sameKind list ∧ list.getLast? = some ')'

/-- A list in a parenthesis and some closing bracket is bracketed if all its brackets fit. -/
theorem isBracketed_iff {inner : List Char} {c : Char} (hc : isClosing c = true)
    (hinner : Nested anyKind inner) :
    IsBracketed ('(' :: (inner ++ [c])) ↔
      fits sameKind [] .outside ('(' :: (inner ++ [c])) = true := by
  constructor
  · intro h
    exact (nested_iff_fits.mp h.1).2
  · intro hfits
    refine ⟨nested_iff_fits.mpr ⟨.group rfl hc rfl hinner .nil, hfits⟩, ?_⟩
    rw [fits_group rfl hc hinner, Bool.and_eq_true, Bool.and_eq_true] at hfits
    have hparen : c = ')' := by simpa [sameKind] using hfits.2.1
    rw [hparen, ← List.cons_append, List.getLast?_concat]

/-- What is taken as an attribute list is nested and ends with a closing bracket. -/
theorem exists_nested_of_scanList {attrs : List Attr} {n : Nat}
    (h : scanList s = .ok (attrs, n)) :
    ∃ list rest, s = list ++ rest ∧ bytes list = n ∧ Nested anyKind list ∧
      (∃ c, list.getLast? = some c ∧ isClosing c = true) ∧
      (IsBracketed list ↔ fits sameKind [] .outside list = true) := by
  obtain ⟨inner, c, rest, hc, rfl, hinner, -, rfl⟩ := scanList_eq_ok_iff.mp h
  have hnested := nested_iff_closed.mpr hinner
  have hlast : ('(' :: (inner ++ [c])).getLast? = some c := by
    rw [← List.cons_append, List.getLast?_concat]
  exact ⟨'(' :: (inner ++ [c]), rest, by simp, rfl, .group rfl hc rfl hnested .nil,
    ⟨c, hlast, hc⟩, isBracketed_iff hc hnested⟩

/-- What is taken from the start of `s` as an attribute list is bracketed, and nothing is taken from
a parenthesis on when no start of `s` is bracketed. -/
def KeepsKinds (s : List Char) : Prop :=
  (∀ attrs n, scanList s = .ok (attrs, n) →
    ∃ list rest, s = list ++ rest ∧ bytes list = n ∧ IsBracketed list) ∧
  (s.head? = some '(' → (∀ list, list <+: s → ¬ IsBracketed list) →
    ∃ fault, scanList s = .error fault)

/-- What is taken as an attribute list is nested, and it ends with a closing bracket; it is
bracketed if its brackets fit in kind, which is not looked at. A text is refused as unterminated if
no start of it is nested. So kinds are kept exactly on those texts from which no list is taken whose
brackets do not fit. -/
theorem scanList_nested (s : List Char) :
    (∀ attrs n, scanList s = .ok (attrs, n) →
      ∃ list rest, s = list ++ rest ∧ bytes list = n ∧ Nested anyKind list ∧
        (∃ c, list.getLast? = some c ∧ isClosing c = true) ∧
        (IsBracketed list ↔ fits sameKind [] .outside list = true)) ∧
    (s.head? = some '(' → (scanList s = .error .unterminated ↔
      ∀ list, list <+: s → Nested anyKind list → list = [])) ∧
    (KeepsKinds s ↔ ∀ attrs list rest, s = list ++ rest →
      scanList s = .ok (attrs, bytes list) → fits sameKind [] .outside list = true) := by
  refine ⟨fun attrs n h => exists_nested_of_scanList h, ?_, ?_, ?_⟩
  · intro hhead
    obtain ⟨rest, rfl⟩ := List.head?_eq_some_iff.mp hhead
    exact scanList_eq_unterminated_iff
  · rintro ⟨hkept, -⟩ attrs list rest rfl h
    obtain ⟨list', rest', heq, hbytes, hbracketed⟩ := hkept attrs _ h
    rw [← Text.eq_of_bytes_eq heq hbytes.symm] at hbracketed
    exact (nested_iff_fits.mp hbracketed.1).2
  · intro hfits
    have hkept (attrs : List Attr) (n : Nat) (h : scanList s = .ok (attrs, n)) :
        ∃ list rest, s = list ++ rest ∧ bytes list = n ∧ IsBracketed list := by
      obtain ⟨list, rest, heq, rfl, -, -, hiff⟩ := exists_nested_of_scanList h
      exact ⟨list, rest, heq, rfl, hiff.mpr (hfits attrs list rest heq h)⟩
    refine ⟨hkept, fun _ hnone => ?_⟩
    cases h : scanList s with
    | error fault => exact ⟨fault, rfl⟩
    | ok taken =>
      obtain ⟨list, rest, heq, -, hbracketed⟩ := hkept taken.1 taken.2 h
      exact absurd hbracketed (hnone list ⟨rest, heq.symm⟩)

/-- A bracket of another kind ends the list. -/
theorem scanList_takes_other_kind :
    scanList "(a]".toList = .ok ([⟨"a", .flag true, true⟩], 3) ∧ ¬ KeepsKinds "(a]".toList := by
  have hscan : scanList "(a]".toList = .ok ([⟨"a", .flag true, true⟩], 3) := rfl
  refine ⟨hscan, fun hkeeps => ?_⟩
  obtain ⟨list, rest, heq, hbytes, -, hlast⟩ := hkeeps.1 _ _ hscan
  have hlist : list = "(a]".toList := by
    have hall : list ++ rest = "(a]".toList ++ [] := heq.symm
    exact Text.eq_of_bytes_eq hall hbytes
  rw [hlist] at hlast
  cases hlast

end Attr

end Offside
