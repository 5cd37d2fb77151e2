import Offside.Json
import Offside.Proofs.Json.Literal

/-!
# JSON documents

The grammar of JSON, as far as there are values for it: `Spells v s` says that the text `s` is a way
to write the value `v`. White space may stand around items, names and values, and fields keep their
order. Any character of a string may be escaped, by a letter where there is one or by its number,
but only if it is a single code unit: the escapes of surrogate pairs are left out. Numbers are
natural ones and written in decimal digits, without an exponent.

A document stands for one value only (`document_unique`), since its first character says what kind
of value comes, and a list is read item by item up to the character that closes it. Both renderings
of a value are documents that stand for it (`document_render`).
-/

set_option autoImplicit false

namespace Offside.Json

open List

/-! ## The grammar -/

/-- White space between the tokens of a document. -/
def isBlank (c : Char) : Bool :=
  c == ' ' || c == '\t' || c == '\n' || c == '\r'

/-- The text is white space. -/
def Blank (s : List Char) : Prop :=
  ∀ c ∈ s, isBlank c = true

/-- Items that `G` writes, in white space and with commas between them. -/
inductive Separated {α : Type} (G : α → List Char → Prop) : List α → List Char → Prop
  | nil {a : List Char} (ha : Blank a) : Separated G [] a
  | single {x : α} {a s b : List Char} (ha : Blank a) (hx : G x s) (hb : Blank b) :
    Separated G [x] (a ++ (s ++ b))
  | cons {x y : α} {rest : List α} {a s b more : List Char} (ha : Blank a) (hx : G x s)
    (hb : Blank b) (hmore : Separated G (y :: rest) more) :
    Separated G (x :: y :: rest) (a ++ (s ++ (b ++ ',' :: more)))

/-- A name and a value that `G` writes, with a colon between them. -/
inductive Field (G : Json → List Char → Prop) : String × Json → List Char → Prop
  | mk {name : String} {pieces : List Piece} {v : Json} {a b s : List Char}
    (hname : decode? pieces = some name.toList) (ha : Blank a) (hb : Blank b) (hv : G v s) :
    Field G (name, v) (literal pieces ++ (a ++ ':' :: (b ++ s)))

/-- Decimal digits of a number, without zeros in front. -/
structure Numeral (n : Nat) (digits : List Char) : Prop where
  ne_nil : digits ≠ []
  isDigit : ∀ c ∈ digits, c.isDigit = true
  first : digits.head? = some '0' → digits = ['0']
  value : Nat.ofDigitChars 10 digits 0 = n

/-- The text is a way to write the value. -/
inductive Spells : Json → List Char → Prop
  | yes : Spells (.bool true) "true".toList
  | no : Spells (.bool false) "false".toList
  | num {n : Nat} {digits : List Char} (h : Numeral n digits) : Spells (.num n) digits
  | str {t : String} {pieces : List Piece} (h : decode? pieces = some t.toList) :
    Spells (.str t) (literal pieces)
  | arr {items : List Json} {body : List Char} (h : Separated Spells items body) :
    Spells (.arr items) ('[' :: (body ++ [']']))
  | obj {fields : List (String × Json)} {body : List Char}
    (h : Separated (Field Spells) fields body) :
    Spells (.obj fields) ('\x7b' :: (body ++ ['\x7d']))

/-- The text is a document that stands for the value. -/
def Document (v : Json) (s : List Char) : Prop :=
  ∃ a t b, Blank a ∧ Spells v t ∧ Blank b ∧ s = a ++ (t ++ b)

/-! ## Induction over values -/

/-- What holds of a value as soon as it holds of all values in it, holds of every value. -/
theorem induct {P : Json → Prop} (bool : ∀ b, P (.bool b)) (num : ∀ n, P (.num n))
    (str : ∀ s, P (.str s)) (arr : ∀ items, (∀ v ∈ items, P v) → P (.arr items))
    (obj : ∀ fields, (∀ p ∈ fields, P p.2) → P (.obj fields)) (v : Json) : P v :=
  match v with
  | .bool b => bool b
  | .num n => num n
  | .str s => str s
  | .arr items => arr items fun v _ => induct bool num str arr obj v
  | .obj fields => obj fields fun p _ => induct bool num str arr obj p.2
termination_by sizeOf v
decreasing_by
  all_goals simp_wf
  all_goals have := sizeOf_lt_of_mem ‹_ ∈ _›
  · omega
  · rcases p with ⟨k, v⟩
    simp only [Prod.mk.sizeOf_spec] at this ⊢
    omega

/-! ## Where a token ends -/

/-- The text does not go on with characters that `p` accepts. -/
def Stops (p : Char → Bool) (s : List Char) : Prop :=
  ∀ c ∈ s.head?, p c = false

theorem stops_cons {p : Char → Bool} {c : Char} (h : p c = false) (s : List Char) :
    Stops p (c :: s) := by
  rintro _ ⟨⟩
  exact h

/-- A run of characters is the same wherever it stops. -/
theorem run_unique {p : Char → Bool} {a a' r r' : List Char} (ha : ∀ c ∈ a, p c = true)
    (ha' : ∀ c ∈ a', p c = true) (hr : Stops p r) (hr' : Stops p r') (h : a ++ r = a' ++ r') :
    a = a' ∧ r = r' := by
  have hrun {a r : List Char} (ha : ∀ c ∈ a, p c = true) (hr : Stops p r) :
      (a ++ r).takeWhile p = a := by
    rw [takeWhile_append_of_pos ha]
    cases r with
    | nil => simp
    | cons c r => simp [hr c rfl]
  have heq : a = a' := by rw [← hrun ha hr, h, hrun ha' hr']
  subst heq
  exact ⟨rfl, append_cancel_left h⟩

theorem isDigit_of_isBlank {c : Char} (h : isBlank c = true) : c.isDigit = false := by
  simp only [isBlank, Bool.or_eq_true, beq_iff_eq] at h
  rcases h with ((rfl | rfl) | rfl) | rfl <;> rfl

theorem stops_isDigit_blank {b r : List Char} (hb : Blank b) (hr : Stops Char.isDigit r) :
    Stops Char.isDigit (b ++ r) := by
  cases b with
  | nil => exact hr
  | cons c b => exact stops_cons (isDigit_of_isBlank (hb c mem_cons_self)) _

/-! ## Lists -/

section Lists

variable {α : Type} {G : α → List Char → Prop}

/-- What `G` writes for `x` it writes for nothing else, whatever follows, as long as that does not
go on with digits. -/
def Told (G : α → List Char → Prop) (x : α) : Prop :=
  ∀ {x' s s' r r'}, G x s → G x' s' → Stops Char.isDigit r → Stops Char.isDigit r' →
    s ++ r = s' ++ r' → x = x' ∧ s = s'

/-- What `G` writes starts with a character that is neither white space nor `close`. -/
def Fronted (G : α → List Char → Prop) (close : Char) : Prop :=
  ∀ {x s}, G x s → ∃ c rest, s = c :: rest ∧ isBlank c = false ∧ c ≠ close

/-- What comes behind an item: nothing more, or a comma and the other items. -/
inductive Behind (G : α → List Char → Prop) : List α → List Char → Prop
  | nothing : Behind G [] []
  | more {rest : List α} {s : List Char} (hne : rest ≠ []) (h : Separated G rest s) :
    Behind G rest (',' :: s)

theorem separated_cons {x : α} {rest : List α} {s : List Char} (h : Separated G (x :: rest) s) :
    ∃ a t b tail, s = a ++ (t ++ (b ++ tail)) ∧ Blank a ∧ G x t ∧ Blank b ∧ Behind G rest tail := by
  cases h with
  | @single _ a t b ha hx hb => exact ⟨a, t, b, [], by rw [append_nil], ha, hx, hb, .nothing⟩
  | @cons _ y rest a t b more ha hx hb hmore =>
    exact ⟨a, t, b, _, rfl, ha, hx, hb, .more (cons_ne_nil _ _) hmore⟩

theorem Behind.stops {rest : List α} {tail : List Char} (h : Behind G rest tail) {p : Char → Bool}
    {close : Char} (hcomma : p ',' = false) (hclose : p close = false) (r : List Char) :
    Stops p (tail ++ close :: r) := by
  cases h with
  | nothing => exact stops_cons hclose r
  | more => exact stops_cons hcomma _

theorem Fronted.stops {close : Char} (h : Fronted G close) {x : α} {s : List Char} (hx : G x s)
    (r : List Char) : Stops isBlank (s ++ r) := by
  obtain ⟨c, rest, rfl, hblank, -⟩ := h hx
  exact stops_cons hblank _

/-- Lists are told apart by their items, up to the character that closes them. -/
theorem separated_unique {close : Char} (hclose : isBlank close = false) (hcomma : close ≠ ',')
    (hdigit : close.isDigit = false) (hfront : Fronted G close) {items items' : List α}
    (hitems : ∀ x ∈ items, Told G x) {s s' r r' : List Char} (h : Separated G items s)
    (h' : Separated G items' s') (heq : s ++ close :: r = s' ++ close :: r') :
    items = items' ∧ s = s' := by
  -- The end of a list and the start of an item are different characters.
  have hend {a t u r s : List Char} {x : α} (hs : Blank s) (ha : Blank a) (ht : G x t)
      (heq : s ++ close :: r = a ++ (t ++ u)) : False := by
    obtain ⟨c, rest, rfl, hblank, hne⟩ := hfront ht
    have hstart := (run_unique hs ha (stops_cons hclose r) (stops_cons hblank _) heq).2
    exact hne (cons.inj hstart).1.symm
  induction items generalizing items' s s' with
  | nil =>
    obtain ⟨hs⟩ := h
    cases items' with
    | nil =>
      obtain ⟨hs'⟩ := h'
      exact ⟨rfl, (run_unique hs hs' (stops_cons hclose r) (stops_cons hclose r') heq).1⟩
    | cons x' rest' =>
      obtain ⟨a, t, b, tail, rfl, ha, ht, -⟩ := separated_cons h'
      rw [append_assoc, append_assoc] at heq
      exact (hend hs ha ht heq).elim
  | cons x rest ih =>
    obtain ⟨a, t, b, tail, rfl, ha, ht, hb, htail⟩ := separated_cons h
    cases items' with
    | nil =>
      obtain ⟨hs'⟩ := h'
      rw [append_assoc, append_assoc] at heq
      exact (hend hs' ha ht heq.symm).elim
    | cons x' rest' =>
      obtain ⟨a', t', b', tail', rfl, ha', ht', hb', htail'⟩ := separated_cons h'
      simp only [append_assoc] at heq
      -- White space, the item, white space, and what comes behind it are read off one by one.
      obtain ⟨rfl, hitem⟩ := run_unique ha ha' (hfront.stops ht _) (hfront.stops ht' _) heq
      have hdigits := stops_isDigit_blank hb (htail.stops rfl hdigit r)
      have hdigits' := stops_isDigit_blank hb' (htail'.stops rfl hdigit r')
      obtain ⟨rfl, rfl⟩ := hitems x mem_cons_self ht ht' hdigits hdigits' hitem
      obtain ⟨rfl, hbehind⟩ := run_unique hb hb' (htail.stops rfl hclose r)
        (htail'.stops rfl hclose r') (append_cancel_left hitem)
      cases htail with
      | nothing =>
        cases htail' with
        | nothing => exact ⟨rfl, rfl⟩
        | more hne' hmore' => exact absurd (cons.inj hbehind).1 hcomma
      | more hne hmore =>
        cases htail' with
        | nothing => exact absurd (cons.inj hbehind).1.symm hcomma
        | more hne' hmore' =>
          obtain ⟨rfl, rfl⟩ := ih (fun y hy => hitems y (mem_cons_of_mem _ hy)) hmore hmore'
            (cons.inj hbehind).2
          exact ⟨rfl, rfl⟩

end Lists

/-! ## Values -/

/-- What the first character of a value tells. -/
inductive Kind where
  | yes
  | no
  | number
  | string
  | array
  | object

/-- The kind of value that starts with the character. -/
def kindOf? (c : Char) : Option Kind :=
  if c = 't' then some .yes
  else if c = 'f' then some .no
  else if c = mark then some .string
  else if c = '[' then some .array
  else if c = '\x7b' then some .object
  else if c.isDigit then some .number
  else none

/-- The kind of a value. -/
def kind : Json → Kind
  | .bool true => .yes
  | .bool false => .no
  | .num _ => .number
  | .str _ => .string
  | .arr _ => .array
  | .obj _ => .object

theorem kindOf?_digit {c : Char} (h : c.isDigit = true) : kindOf? c = some .number := by
  have hne {d : Char} (hd : d.isDigit = false) : c ≠ d := by
    rintro rfl
    rw [h] at hd
    cases hd
  simp [kindOf?, h, hne (d := 't') rfl, hne (d := 'f') rfl, hne (d := mark) rfl,
    hne (d := '[') rfl, hne (d := '\x7b') rfl]

theorem kindOf?_blank {c : Char} (h : isBlank c = true) : kindOf? c = none := by
  simp only [isBlank, Bool.or_eq_true, beq_iff_eq] at h
  rcases h with ((rfl | rfl) | rfl) | rfl <;> rfl

/-- The first character of a value tells its kind. -/
theorem Spells.kind_eq {v : Json} {s : List Char} (h : Spells v s) :
    ∃ c rest, s = c :: rest ∧ kindOf? c = some v.kind := by
  cases h with
  | yes | no | str _ | arr _ | obj _ => exact ⟨_, _, rfl, rfl⟩
  | num h =>
    obtain ⟨c, rest, rfl⟩ := exists_cons_of_ne_nil h.ne_nil
    exact ⟨c, rest, rfl, kindOf?_digit (h.isDigit c mem_cons_self)⟩

theorem fronted_spells : Fronted Spells ']' := by
  intro v s h
  obtain ⟨c, rest, rfl, hkind⟩ := h.kind_eq
  refine ⟨c, rest, rfl, ?_, ?_⟩
  · cases hblank : isBlank c with
    | false => rfl
    | true =>
      rw [kindOf?_blank hblank] at hkind
      cases hkind
  · rintro rfl
    cases hkind

theorem fronted_field {G : Json → List Char → Prop} : Fronted (Field G) '\x7d' := by
  rintro p s ⟨⟩
  exact ⟨mark, _, rfl, rfl, by decide⟩

/-- Literals are read up to their end. -/
theorem literal_unique {pieces pieces' : List Piece} {r r' : List Char}
    (h : literal pieces ++ r = literal pieces' ++ r') : pieces = pieces' ∧ r = r' := by
  have hread := literal?_eq_some.mpr h
  rw [literal?_eq_some.mpr rfl] at hread
  exact Prod.mk.inj (Option.some.inj hread)

theorem text_unique {pieces : List Piece} {t t' : String} (h : decode? pieces = some t.toList)
    (h' : decode? pieces = some t'.toList) : t = t' := by
  rw [h] at h'
  exact String.toList_inj.mp (Option.some.inj h')

theorem told_field {p : String × Json} (h : Told Spells p.2) : Told (Field Spells) p := by
  intro p' s s' r r' hp hp' hr hr' heq
  obtain ⟨hname, ha, hb, hv⟩ := hp
  obtain ⟨hname', ha', hb', hv'⟩ := hp'
  simp only [append_assoc, cons_append] at heq
  obtain ⟨rfl, hcolon⟩ := literal_unique heq
  obtain rfl := text_unique hname hname'
  have hstops (u : List Char) : Stops isBlank (':' :: u) := stops_cons rfl u
  obtain ⟨rfl, hvalue⟩ := run_unique ha ha' (hstops _) (hstops _) hcolon
  obtain ⟨rfl, hrest⟩ := run_unique hb hb' (fronted_spells.stops hv _) (fronted_spells.stops hv' _)
    (cons.inj hvalue).2
  obtain ⟨rfl, rfl⟩ := h hv hv' hr hr' hrest
  exact ⟨rfl, rfl⟩

theorem kind_unique {v v' : Json} {s s' r r' : List Char} (h : Spells v s) (h' : Spells v' s')
    (heq : s ++ r = s' ++ r') : v.kind = v'.kind := by
  obtain ⟨c, rest, rfl, hkind⟩ := h.kind_eq
  obtain ⟨c', rest', rfl, hkind'⟩ := h'.kind_eq
  obtain rfl : c = c' := (cons.inj heq).1
  rw [hkind] at hkind'
  exact Option.some.inj hkind'

theorem numeral_unique {n n' : Nat} {digits digits' r r' : List Char} (h : Numeral n digits)
    (h' : Numeral n' digits') (hr : Stops Char.isDigit r) (hr' : Stops Char.isDigit r')
    (heq : digits ++ r = digits' ++ r') : n = n' ∧ digits = digits' := by
  obtain ⟨rfl, -⟩ := run_unique h.isDigit h'.isDigit hr hr' heq
  exact ⟨h.value.symm.trans h'.value, rfl⟩

/-- A value is read up to its end. -/
theorem told_spells (v : Json) : Told Spells v := by
  -- The kind of the other value is the same, since it can be told from the first character that
  -- both share.
  induction v using induct with
  | bool b =>
    intro v' s s' r r' h h' hr hr' heq
    have hkind := kind_unique h h' heq
    cases v' with
    | bool b' => cases b <;> cases b' <;> cases hkind <;> cases h <;> cases h' <;> exact ⟨rfl, rfl⟩
    | num n' | str t' | arr items' | obj fields' => cases b <;> cases hkind
  | num n =>
    intro v' s s' r r' h h' hr hr' heq
    have hkind := kind_unique h h' heq
    cases v' with
    | num n' =>
      obtain _ | _ | hn := h
      obtain _ | _ | hn' := h'
      obtain ⟨rfl, rfl⟩ := numeral_unique hn hn' hr hr' heq
      exact ⟨rfl, rfl⟩
    | bool b' => cases b' <;> cases hkind
    | str t' | arr items' | obj fields' => cases hkind
  | str t =>
    intro v' s s' r r' h h' hr hr' heq
    have hkind := kind_unique h h' heq
    cases v' with
    | str t' =>
      obtain _ | _ | _ | ht := h
      obtain _ | _ | _ | ht' := h'
      obtain ⟨rfl, -⟩ := literal_unique heq
      obtain rfl := text_unique ht ht'
      exact ⟨rfl, rfl⟩
    | bool b' => cases b' <;> cases hkind
    | num n' | arr items' | obj fields' => cases hkind
  | arr items ih =>
    intro v' s s' r r' h h' hr hr' heq
    have hkind := kind_unique h h' heq
    cases v' with
    | arr items' =>
      obtain _ | _ | _ | _ | hbody := h
      obtain _ | _ | _ | _ | hbody' := h'
      simp only [cons_append, append_assoc, cons.injEq, true_and, nil_append] at heq
      obtain ⟨rfl, rfl⟩ := separated_unique rfl (by decide) rfl fronted_spells ih hbody hbody' heq
      exact ⟨rfl, rfl⟩
    | bool b' => cases b' <;> cases hkind
    | num n' | str t' | obj fields' => cases hkind
  | obj fields ih =>
    intro v' s s' r r' h h' hr hr' heq
    have hkind := kind_unique h h' heq
    cases v' with
    | obj fields' =>
      obtain _ | _ | _ | _ | _ | hbody := h
      obtain _ | _ | _ | _ | _ | hbody' := h'
      simp only [cons_append, append_assoc, cons.injEq, true_and, nil_append] at heq
      obtain ⟨rfl, rfl⟩ := separated_unique rfl (by decide) rfl fronted_field
        (fun p hp => told_field (ih p hp)) hbody hbody' heq
      exact ⟨rfl, rfl⟩
    | bool b' => cases b' <;> cases hkind
    | num n' | str t' | arr items' => cases hkind

/-- A document stands for one value. -/
theorem document_unique {v v' : Json} {s : List Char} (h : Document v s) (h' : Document v' s) :
    v = v' := by
  obtain ⟨a, t, b, ha, ht, hb, rfl⟩ := h
  obtain ⟨a', t', b', ha', ht', hb', heq⟩ := h'
  have hstops {b : List Char} (hb : Blank b) : Stops Char.isDigit b := by
    simpa using stops_isDigit_blank hb (r := []) (by simp [Stops])
  obtain ⟨rfl, hvalue⟩ := run_unique ha ha' (fronted_spells.stops ht _) (fronted_spells.stops ht' _)
    heq
  exact (told_spells v ht ht' (hstops hb) (hstops hb') hvalue).1

/-! ## The renderings -/

theorem compactItems_eq_map (items : List Json) : compactItems items = items.map compact := by
  induction items with
  | nil => rfl
  | cons v rest ih => rw [compactItems, ih, map_cons]

theorem compactFields_eq_map (fields : List (String × Json)) :
    compactFields fields = fields.map fun p => quote p.1 ++ ":" ++ compact p.2 := by
  induction fields with
  | nil => rfl
  | cons p rest ih => rw [compactFields, ih, map_cons]

theorem prettyItems_eq_map (depth : Nat) (items : List Json) :
    prettyItems depth items = items.map fun v => pad depth ++ prettyAt depth v := by
  induction items with
  | nil => rfl
  | cons v rest ih => rw [prettyItems, ih, map_cons]

theorem prettyFields_eq_map (depth : Nat) (fields : List (String × Json)) :
    prettyFields depth fields =
      fields.map fun p => pad depth ++ (quote p.1 ++ ": " ++ prettyAt depth p.2) := by
  induction fields with
  | nil => rfl
  | cons p rest ih => rw [prettyFields, ih, map_cons, String.append_assoc, String.append_assoc,
      String.append_assoc]

theorem eq_zero_of_head?_toDigits {n : Nat} (h : (Nat.toDigits 10 n).head? = some '0') : n = 0 := by
  induction n using Nat.strongRecOn with
  | ind n ih =>
    -- The first digit of a longer number is that of the number without its last digit.
    by_cases hn : n < 10
    · have hdigit : ∀ n < 10, n.digitChar = '0' → n = 0 := by decide
      rw [Nat.toDigits_of_lt_base hn] at h
      exact hdigit n hn (Option.some.inj h)
    · have hle := Nat.le_of_not_lt hn
      obtain ⟨c, rest, hdigits⟩ :=
        exists_cons_of_ne_nil (Nat.toDigits_ne_nil (n := n / 10) (b := 10))
      rw [Nat.toDigits_of_base_le (by decide) hle, hdigits, cons_append] at h
      have hzero := ih (n / 10) (by omega) (by rw [hdigits]; exact h)
      omega

theorem numeral_repr (n : Nat) : Numeral n n.repr.toList := by
  rw [Nat.repr_eq_ofList_toDigits, String.toList_ofList]
  refine ⟨Nat.toDigits_ne_nil, fun c hc => ?_, fun hfirst => ?_, Nat.ofDigitChars_ten_toDigits⟩
  · exact Nat.isDigit_of_mem_toDigits (by decide) (by decide) hc
  · rw [eq_zero_of_head?_toDigits hfirst, Nat.toDigits_zero]

/-- Items that are written one after the other, each behind the white space `a` and the last in
front of the white space `b`. -/
theorem separated_intercalate {α : Type} {G : α → List Char → Prop} {a b : List Char} (ha : Blank a)
    (hb : Blank b) (write : α → List Char) {items : List α} (hne : items ≠ [])
    (h : ∀ x ∈ items, G x (write x)) :
    Separated G items ([','].intercalate (items.map fun x => a ++ write x) ++ b) := by
  induction items with
  | nil => exact absurd rfl hne
  | cons x rest ih =>
    have hx := h x mem_cons_self
    cases rest with
    | nil =>
      rw [map_singleton, intercalate_singleton, append_assoc]
      exact .single ha hx hb
    | cons y rest =>
      have hmore := ih (cons_ne_nil _ _) fun z hz => h z (mem_cons_of_mem _ hz)
      have hnil : Blank [] := by simp [Blank]
      have hcons := Separated.cons ha hx hnil hmore
      simpa [intercalate_cons_cons] using hcons

theorem separated_compact {α : Type} {G : α → List Char → Prop} (write : α → String)
    {items : List α} (h : ∀ x ∈ items, G x (write x).toList) :
    Separated G items (",".intercalate (items.map write)).toList := by
  have hnil : Blank [] := by simp [Blank]
  cases items with
  | nil => exact .nil hnil
  | cons x rest =>
    have hitems :=
      separated_intercalate hnil hnil (fun x => (write x).toList) (cons_ne_nil x rest) h
    simpa [Function.comp_def] using hitems

/-- Line feeds behind the commas are line feeds in front of the items. -/
theorem intercalate_newline (xs : List (List Char)) (h : xs ≠ []) :
    '\n' :: [',', '\n'].intercalate xs = [','].intercalate (xs.map ('\n' :: ·)) := by
  induction xs with
  | nil => exact absurd rfl h
  | cons x rest ih =>
    cases rest with
    | nil => simp
    | cons y rest =>
      rw [intercalate_cons_cons, map_cons, map_cons, intercalate_cons_cons, ← map_cons,
        ← ih (cons_ne_nil _ _)]
      simp

theorem blank_newline_pad (depth : Nat) : Blank ('\n' :: (pad depth).toList) := by
  intro c hc
  rw [pad, String.toList_ofList, mem_cons, mem_replicate] at hc
  rcases hc with rfl | ⟨-, rfl⟩ <;> rfl

/-- Items on lines of their own. -/
theorem separated_pretty {α : Type} {G : α → List Char → Prop} (depth : Nat) (write : α → String)
    {items : List α} (hne : items ≠ []) (h : ∀ x ∈ items, G x (write x).toList) :
    Separated G items ("\n" ++ ",\n".intercalate (items.map fun x => pad (depth + 1) ++ write x) ++
      "\n" ++ pad depth).toList := by
  have hitems := separated_intercalate (blank_newline_pad (depth + 1)) (blank_newline_pad depth)
    (fun x => (write x).toList) hne h
  have hlines :=
    intercalate_newline (items.map fun x => (pad (depth + 1)).toList ++ (write x).toList)
      (by simpa using hne)
  have htext : ("\n" ++ ",\n".intercalate (items.map fun x => pad (depth + 1) ++ write x) ++ "\n" ++
      pad depth).toList = '\n' :: [',', '\n'].intercalate
        (items.map fun x => (pad (depth + 1)).toList ++ (write x).toList) ++
          '\n' :: (pad depth).toList := by
    simp [Function.comp_def]
  rw [htext, hlines, map_map]
  exact hitems

theorem spells_quote (t : String) : Spells (.str t) (quote t).toList := by
  obtain ⟨pieces, hchars, hvalue⟩ := exists_pieces_quote t.toList
  rw [quote, String.toList_ofList, hchars]
  exact .str hvalue

theorem field_quote {G : Json → List Char → Prop} (name : String) {v : Json} {b s : List Char}
    (hb : Blank b) (hv : G v s) : Field G (name, v) ((quote name).toList ++ ':' :: (b ++ s)) := by
  obtain ⟨pieces, hchars, hvalue⟩ := exists_pieces_quote name.toList
  have hnil : Blank [] := by simp [Blank]
  rw [quote, String.toList_ofList, hchars]
  exact .mk hvalue hnil hb hv

theorem spells_compact (v : Json) : Spells v (compact v).toList := by
  induction v using induct with
  | bool b =>
    cases b with
    | true => exact .yes
    | false => exact .no
  | num n => exact .num (numeral_repr n)
  | str t => exact spells_quote t
  | arr items ih =>
    have hbody : Separated Spells items (",".intercalate (compactItems items)).toList := by
      rw [compactItems_eq_map]
      exact separated_compact compact ih
    have harr := Spells.arr hbody
    rw [compact]
    simpa using harr
  | obj fields ih =>
    have hbody :
        Separated (Field Spells) fields (",".intercalate (compactFields fields)).toList := by
      rw [compactFields_eq_map]
      apply separated_compact
      intro p hp
      have hnil : Blank [] := by simp [Blank]
      simpa using field_quote p.1 hnil (ih p hp)
    have hobj := Spells.obj hbody
    rw [compact]
    simpa using hobj

theorem spells_pretty (depth : Nat) (v : Json) : Spells v (prettyAt depth v).toList := by
  have hnil : Blank [] := by simp [Blank]
  -- The depth is not fixed, since what is inside an array or an object is indented further.
  induction v using induct generalizing depth with
  | bool b =>
    cases b with
    | true => exact .yes
    | false => exact .no
  | num n => exact .num (numeral_repr n)
  | str t => exact spells_quote t
  | arr items ih =>
    cases items with
    | nil => simpa [prettyAt] using Spells.arr (.nil hnil)
    | cons v rest =>
      have hbody : Separated Spells (v :: rest) ("\n" ++
          ",\n".intercalate (prettyItems (depth + 1) (v :: rest)) ++ "\n" ++ pad depth).toList := by
        rw [prettyItems_eq_map]
        exact separated_pretty depth _ (cons_ne_nil v rest) fun x hx => ih x hx (depth + 1)
      have harr := Spells.arr hbody
      simpa [prettyAt] using harr
  | obj fields ih =>
    cases fields with
    | nil => simpa [prettyAt] using Spells.obj (.nil hnil)
    | cons p rest =>
      have hbody : Separated (Field Spells) (p :: rest) ("\n" ++ ",\n".intercalate
          (prettyFields (depth + 1) (p :: rest)) ++ "\n" ++ pad depth).toList := by
        rw [prettyFields_eq_map]
        apply separated_pretty depth _ (cons_ne_nil p rest)
        intro q hq
        have hblank : Blank [' '] := by simp [Blank, isBlank]
        simpa using field_quote q.1 hblank (ih q hq (depth + 1))
      have hobj := Spells.obj hbody
      simpa [prettyAt] using hobj

/-- Both renderings of a value are documents that stand for it, and for no other value. -/
theorem document_render (spread : Bool) (v v' : Json) :
    Document v' (v.render spread).toList ↔ v' = v := by
  have hnil : Blank [] := by simp [Blank]
  have hspells : Spells v (v.render spread).toList := by
    cases spread with
    | true => exact spells_pretty 0 v
    | false => exact spells_compact v
  have hdocument : Document v (v.render spread).toList :=
    ⟨[], _, [], hnil, hspells, hnil, by simp⟩
  constructor
  · intro h
    exact document_unique h hdocument
  · rintro rfl
    exact hdocument

end Offside.Json
