import Offside.Json.Quoted

/-!
# String literals

The grammar of JSON string literals, and what they stand for. A literal is a list of pieces between
two marks: a character as it is, a letter behind a backslash, or four hexadecimal digits. There are
many literals for one text; `quote` writes one of them (`exists_pieces_quote`).

A literal is read piece by piece up to its closing mark, whatever follows (`literal?_eq_some`). Not
every literal stands for a text, since half of a surrogate pair can be written by number, but every
literal stands for a list of code units (`Piece.units`).
-/

set_option autoImplicit false

namespace Offside.Json

/-- A character that may stand in a literal as it is. -/
def isPlain (c : Char) : Bool :=
  c != mark && c != backslash && 32 ≤ c.toNat

/-- What a letter stands for behind a backslash. -/
def lettered? (c : Char) : Option Char :=
  if c = mark ∨ c = backslash ∨ c = '/' then some c
  else if c = 'b' then some '\x08'
  else if c = 'f' then some '\x0c'
  else if c = 'n' then some '\n'
  else if c = 'r' then some '\r'
  else if c = 't' then some '\t'
  else none

/-- The value of a hexadecimal digit in either case. -/
def hexValue? (c : Char) : Option Nat :=
  if c.isDigit then some (c.toNat - 48)
  else if 97 ≤ c.toNat ∧ c.toNat ≤ 102 then some (c.toNat - 87)
  else if 65 ≤ c.toNat ∧ c.toNat ≤ 70 then some (c.toNat - 55)
  else none

/-- A piece of a literal. -/
inductive Piece where
  | plain (c : Char) (h : isPlain c = true)
  | letter (c : Char) (h : (lettered? c).isSome = true)
  | number (digits : List Char) (h : digits.length = 4)
      (hex : digits.all (fun c => (hexValue? c).isSome) = true)

namespace Piece

/-- The piece as it is written. -/
def chars : Piece → List Char
  | .plain c _ => [c]
  | .letter c _ => [backslash, c]
  | .number digits _ _ => backslash :: 'u' :: digits

/-- The number that digits stand for. -/
def valueOf (digits : List Char) : Nat :=
  digits.foldl (fun n c => 16 * n + (hexValue? c).getD 0) 0

/-- The character that the piece stands for. Half of a surrogate pair stands for none. -/
def value? : Piece → Option Char
  | .plain c _ => some c
  | .letter c _ => lettered? c
  | .number digits _ _ =>
    if (valueOf digits).isValidChar then some (Char.ofNat (valueOf digits)) else none

end Piece

/-- The literal with these pieces. -/
def literal (pieces : List Piece) : List Char :=
  mark :: (pieces.flatMap Piece.chars ++ [mark])

/-- The text is a string literal. -/
def IsLiteral (s : String) : Prop :=
  ∃ pieces, s.toList = literal pieces

/-- The text that a literal with these pieces stands for. -/
def decode? (pieces : List Piece) : Option (List Char) :=
  pieces.mapM Piece.value?

/-- The pieces of a literal that has been opened, and what follows it. -/
def readBody : List Char → Option (List Piece × List Char)
  | [] => none
  | c :: rest =>
    if c = mark then some ([], rest)
    else if c = backslash then
      match rest with
      | [] => none
      | l :: rest =>
        if l = 'u' then
          match rest with
          | a :: b :: c :: d :: rest =>
            if h : [a, b, c, d].all (fun c => (hexValue? c).isSome) = true then
              (readBody rest).map fun (pieces, after) =>
                (.number [a, b, c, d] rfl h :: pieces, after)
            else none
          | _ => none
        else if h : (lettered? l).isSome = true then
          (readBody rest).map fun (pieces, after) => (.letter l h :: pieces, after)
        else none
    else if h : isPlain c = true then
      (readBody rest).map fun (pieces, after) => (.plain c h :: pieces, after)
    else none

/-- The pieces of the literal at the start of a text, and what follows it. -/
def literal? : List Char → Option (List Piece × List Char)
  | [] => none
  | c :: rest => if c = mark then readBody rest else none

/-! ## Reading what is written -/

theorem ne_of_isPlain {c : Char} (h : isPlain c = true) : c ≠ mark ∧ c ≠ backslash := by
  simp only [isPlain, Bool.and_eq_true, bne_iff_ne] at h
  exact h.1

theorem ne_u_of_lettered? {c : Char} (h : (lettered? c).isSome = true) : c ≠ 'u' := by
  rintro rfl
  exact absurd h (by decide)

/-- Control characters do not stand in a literal as they are. -/
theorem newline_not_mem_literal (pieces : List Piece) : '\n' ∉ literal pieces := by
  -- Neither a plain character nor a letter behind a backslash nor a digit is a line feed.
  have hpiece (p : Piece) : '\n' ∉ p.chars := by
    intro hmem
    cases p with
    | plain c h =>
      obtain rfl : '\n' = c := List.mem_singleton.mp hmem
      exact absurd h (by decide)
    | letter c h =>
      obtain rfl : '\n' = c := by simpa [Piece.chars, backslash] using hmem
      exact absurd h (by decide)
    | number digits h hex =>
      have hdigit : '\n' ∈ digits := by simpa [Piece.chars, backslash] using hmem
      exact absurd (List.all_eq_true.mp hex _ hdigit) (by decide)
  simpa [literal, mark] using fun p _ => hpiece p

/-- One piece is read. -/
theorem readBody_chars (p : Piece) (rest : List Char) :
    readBody (p.chars ++ rest) =
      (readBody rest).map fun (pieces, after) => (p :: pieces, after) := by
  cases p with
  | plain c h =>
    obtain ⟨hmark, hback⟩ := ne_of_isPlain h
    rw [Piece.chars, List.singleton_append, readBody.eq_def]
    simp only [if_neg hmark, if_neg hback, dif_pos h]
  | letter c h =>
    rw [Piece.chars, List.cons_append, List.singleton_append, readBody.eq_def]
    simp only [if_neg (show backslash ≠ mark by decide), if_true, if_neg (ne_u_of_lettered? h),
      dif_pos h]
  | number digits h hex =>
    match digits, h with
    | [a, b, c, d], _ =>
      rw [Piece.chars]
      simp only [List.cons_append, List.nil_append]
      rw [readBody.eq_def]
      simp only [if_neg (show backslash ≠ mark by decide), if_true, dif_pos hex]

theorem readBody_flatMap (pieces : List Piece) (rest : List Char) :
    readBody (pieces.flatMap Piece.chars ++ mark :: rest) = some (pieces, rest) := by
  induction pieces with
  | nil =>
    rw [List.flatMap_nil, List.nil_append, readBody.eq_def]
    simp only [if_true]
  | cons p pieces ih =>
    rw [List.flatMap_cons, List.append_assoc, readBody_chars, ih]
    rfl

theorem eq_of_readBody {s rest : List Char} {pieces : List Piece}
    (h : readBody s = some (pieces, rest)) : s = pieces.flatMap Piece.chars ++ mark :: rest := by
  -- Three cases read one piece and go on; the others stop at the mark or fail.
  fun_induction readBody s generalizing pieces with
  | case2 => cases h; rfl
  | case4 a b c d s hex hne ih | case7 l s hne h' hu ih | case9 c s hm hb hp ih =>
    obtain ⟨⟨more, after⟩, hmore, heq⟩ := Option.map_eq_some_iff.mp h
    cases heq
    rw [ih hmore]
    rfl
  | _ => cases h

/-- A literal is read up to its end, and nothing else is. -/
theorem literal?_eq_some {s rest : List Char} {pieces : List Piece} :
    literal? s = some (pieces, rest) ↔ s = literal pieces ++ rest := by
  constructor
  · intro h
    cases s with
    | nil => cases h
    | cons c s =>
      rw [literal?] at h
      split at h
      · rename_i hc
        rw [hc, eq_of_readBody h, literal, List.cons_append, List.append_assoc,
          List.singleton_append]
      · cases h
  · rintro rfl
    rw [literal, List.cons_append, List.append_assoc, List.singleton_append, literal?, if_pos rfl,
      readBody_flatMap]

/-! ## The literal that is written for a text -/

theorem hexValue?_hexDigit : ∀ n < 16, hexValue? (hexDigit n) = some n := by
  decide

theorem eq_ofNat {c : Char} {n : Nat} (h : c.toNat = n) : c = Char.ofNat n := by
  rw [← h, Char.ofNat_toNat]

/-- A control character is written by number. -/
theorem exists_piece_number {c : Char} (h : c.toNat < 32) :
    ∃ p : Piece,
      p.chars = [backslash, 'u', '0', '0', hexDigit (c.toNat / 16), hexDigit (c.toNat % 16)] ∧
        p.value? = some c := by
  have hhigh := hexValue?_hexDigit (c.toNat / 16) (by omega)
  have hlow := hexValue?_hexDigit (c.toNat % 16) (by omega)
  have hzero : hexValue? '0' = some 0 := rfl
  have hvalue : Piece.valueOf ['0', '0', hexDigit (c.toNat / 16), hexDigit (c.toNat % 16)] =
      c.toNat := by
    simp only [Piece.valueOf, List.foldl_cons, List.foldl_nil, hzero, hhigh, hlow, Option.getD_some]
    omega
  refine ⟨.number ['0', '0', hexDigit (c.toNat / 16), hexDigit (c.toNat % 16)] rfl ?_, rfl, ?_⟩
  · simp [hzero, hhigh, hlow]
  · rw [Piece.value?, hvalue, if_pos (show c.toNat.isValidChar from c.valid), Char.ofNat_toNat]

/-- A character is written as one piece that stands for it. -/
theorem exists_piece_escape (c : Char) : ∃ p : Piece, p.chars = escape c ∧ p.value? = some c := by
  unfold escape
  -- The cases are those of the escape: marks and backslashes, the control characters that have a
  -- letter, the other ones, and everything else.
  split
  · rename_i hc
    have hvalue : lettered? c = some c := if_pos (hc.imp_right .inl)
    exact ⟨.letter c (by rw [hvalue]; rfl), rfl, hvalue⟩
  · rename_i hc
    obtain ⟨hmark, hback⟩ := not_or.mp hc
    split
    · rename_i hsmall
      split
      · rename_i hcode
        exact ⟨.letter 'b' rfl, rfl, by rw [eq_ofNat hcode]; rfl⟩
      · rename_i hcode
        exact ⟨.letter 't' rfl, rfl, by rw [eq_ofNat hcode]; rfl⟩
      · rename_i hcode
        exact ⟨.letter 'n' rfl, rfl, by rw [eq_ofNat hcode]; rfl⟩
      · rename_i hcode
        exact ⟨.letter 'f' rfl, rfl, by rw [eq_ofNat hcode]; rfl⟩
      · rename_i hcode
        exact ⟨.letter 'r' rfl, rfl, by rw [eq_ofNat hcode]; rfl⟩
      · exact exists_piece_number hsmall
    · rename_i hlarge
      have hplain : isPlain c = true := by
        simp [isPlain, hmark, hback, Nat.le_of_not_lt hlarge]
      exact ⟨.plain c hplain, rfl, rfl⟩

/-- The literal of a text stands for it. -/
theorem exists_pieces_quote (s : List Char) :
    ∃ pieces, quoteChars s = literal pieces ∧ decode? pieces = some s := by
  have hpieces : ∃ pieces : List Piece, pieces.flatMap Piece.chars = s.flatMap escape ∧
      decode? pieces = some s := by
    induction s with
    | nil => exact ⟨[], rfl, rfl⟩
    | cons c s ih =>
      obtain ⟨pieces, hchars, hvalue⟩ := ih
      obtain ⟨p, hp, hc⟩ := exists_piece_escape c
      refine ⟨p :: pieces, ?_, ?_⟩
      · rw [List.flatMap_cons, List.flatMap_cons, hp, hchars]
      · rw [decode?] at hvalue ⊢
        rw [List.mapM_cons, hc, hvalue]
        rfl
  obtain ⟨pieces, hchars, hvalue⟩ := hpieces
  exact ⟨pieces, by rw [quoteChars, literal, hchars], hvalue⟩

theorem isLiteral_quote (t : String) : IsLiteral (quote t) := by
  obtain ⟨pieces, hquote, -⟩ := exists_pieces_quote t.toList
  exact ⟨pieces, by rw [quote, String.toList_ofList, hquote]⟩

/-! ## Code units -/

/-- The code units of a character in UTF-16: one, or a surrogate pair. -/
def units (c : Char) : List UInt16 :=
  if c.toNat < 65536 then [c.toNat.toUInt16]
  else
    [(55296 + (c.toNat - 65536) / 1024).toUInt16, (56320 + (c.toNat - 65536) % 1024).toUInt16]

/-- The code units that the piece stands for. -/
def Piece.units : Piece → List UInt16
  | .plain c _ => Json.units c
  | .letter c h => Json.units ((lettered? c).get h)
  | .number digits _ _ => [(valueOf digits).toUInt16]

theorem getD_hexValue?_lt (c : Char) : (hexValue? c).getD 0 < 16 := by
  unfold hexValue?
  split
  · rename_i hdigit
    have hbounds : 48 ≤ c.toNat ∧ c.toNat ≤ 57 := by
      rw [Char.isDigit, Bool.and_eq_true] at hdigit
      exact ⟨of_decide_eq_true hdigit.1, of_decide_eq_true hdigit.2⟩
    rw [Option.getD_some]
    omega
  · split
    · rw [Option.getD_some]
      omega
    · split
      · rw [Option.getD_some]
        omega
      · exact Nat.zero_lt_succ 15

/-- Four digits are one code unit. -/
theorem Piece.valueOf_lt {digits : List Char} (h : digits.length = 4) :
    valueOf digits < 65536 := by
  match digits, h with
  | [a, b, c, d], _ =>
    have ha := getD_hexValue?_lt a
    have hb := getD_hexValue?_lt b
    have hc := getD_hexValue?_lt c
    have hd := getD_hexValue?_lt d
    simp only [valueOf, List.foldl_cons, List.foldl_nil]
    omega

/-- A piece that stands for a character stands for its code units. -/
theorem Piece.units_of_value? {p : Piece} {c : Char} (h : p.value? = some c) :
    p.units = Json.units c := by
  cases p with
  | plain a ha =>
    cases h
    rfl
  | letter a ha =>
    have hget : (lettered? a).get ha = c := Option.get_of_eq_some ha h
    rw [Piece.units, hget]
  | number digits hlength hex =>
    rw [value?] at h
    split at h
    · rename_i hvalid
      cases h
      -- Four digits are less than 65536, so a character written by number is one code unit.
      have hnat : (Char.ofNat (valueOf digits)).toNat = valueOf digits := by
        rw [Char.ofNat, dif_pos hvalid]
        rfl
      rw [Piece.units, Json.units, hnat, if_pos (valueOf_lt hlength)]
    · cases h

theorem flatMap_units_of_decode? {pieces : List Piece} {s : List Char}
    (h : decode? pieces = some s) : pieces.flatMap Piece.units = s.flatMap units := by
  induction pieces generalizing s with
  | nil =>
    cases h
    rfl
  | cons p pieces ih =>
    rw [decode?, List.mapM_cons] at h
    obtain ⟨c, hc, h⟩ := Option.bind_eq_some_iff.mp h
    obtain ⟨rest, hrest, h⟩ := Option.bind_eq_some_iff.mp h
    cases h
    rw [List.flatMap_cons, List.flatMap_cons, Piece.units_of_value? hc, ih hrest]

end Offside.Json
