import Offside.Text.Digits

/-!
# Numbers of double precision

A decimal numeral stands for the nearest number `m * 2 ^ q` with a mantissa of 53 bits; a numeral
half way between two of them stands for the one with the even mantissa. In the other direction a
number is written with the fewest digits that stand for it again, always in positional notation.

Both directions work with natural numbers only, as quotients that are compared crosswise.
-/

set_option autoImplicit false

namespace Offside

/-- A number of double precision. -/
inductive Double where
  | nan
  | infinite (negative : Bool)
  /-- The number `m * 2 ^ q`, with its sign; zero has one too. -/
  | finite (negative : Bool) (m : Nat) (q : Int)
deriving DecidableEq, Repr

namespace Double

/-! ## Reading -/

/-- A quotient rounded to the nearest natural number, a half to the even one. -/
def roundEven (num den : Nat) : Nat :=
  let low := num / den
  let twice := 2 * (num % den)
  if den < twice ∨ (twice = den ∧ low % 2 = 1) then low + 1 else low

/-- The binary exponent of a quotient: the `e` with `2 ^ e ≤ num / den < 2 ^ (e + 1)`. -/
def binaryExponent (num den : Nat) : Int :=
  let e : Int := Int.ofNat num.log2 - Int.ofNat den.log2
  if den * Nat.pow 2 e.toNat ≤ num * Nat.pow 2 (-e).toNat then e else e - 1

/-- The number nearest to a quotient that is not zero. -/
def nearest (negative : Bool) (num den : Nat) : Double :=
  let q := max (binaryExponent num den - 52) (-1074)
  let m := roundEven (num * Nat.pow 2 (-q).toNat) (den * Nat.pow 2 q.toNat)
  let (m, q) := if m = Nat.pow 2 53 then (Nat.pow 2 52, q + 1) else (m, q)
  if 971 < q then .infinite negative else .finite negative m q

/-- The number nearest to `digits * 10 ^ exp`. Far out of range the answer does not depend on the
digits, and nothing needs to be computed. -/
def ofDecimal (negative : Bool) (digits : Nat) (exp : Int) : Double :=
  let places := Int.ofNat (Nat.toDigits 10 digits).length + exp
  if digits = 0 ∨ places < -330 then .finite negative 0 (-1074)
  else if 310 < places then .infinite negative
  else nearest negative (digits * Nat.pow 10 exp.toNat) (Nat.pow 10 (-exp).toNat)

/-- The number is zero, of either sign. -/
def isZero : Double → Bool
  | .finite _ m _ => m == 0
  | _ => false

/-! ## Writing -/

/-- The numeral `digits * 10 ^ exp` is nearest to `m * 2 ^ q`, or half way to a neighbour and `m` is
even. The neighbour below a power of two is only half as far away as the one above. -/
def readsBack (m : Nat) (q : Int) (digits : Nat) (exp : Int) : Bool :=
  let below := if m = Nat.pow 2 52 ∧ -1074 < q then 1 else 2
  let scale := Nat.pow 2 q.toNat * Nat.pow 10 (-exp).toNat
  let numeral := 4 * Nat.pow 2 (-q).toNat * (digits * Nat.pow 10 exp.toNat)
  let low := (4 * m - below) * scale
  let high := (4 * m + 2) * scale
  if m % 2 = 0 then low ≤ numeral && numeral ≤ high else low < numeral && numeral < high

/-- The least `k` with `m * 2 ^ q < 10 ^ k`. -/
def decimalExponent (m : Nat) (q : Int) : Int :=
  let num := m * Nat.pow 2 q.toNat
  let den := Nat.pow 2 (-q).toNat
  if den ≤ num then Int.ofNat (Nat.toDigits 10 (num / den)).length
  else 1 - Int.ofNat (Nat.toDigits 10 (den / num)).length

/-- A numeral with steps of `10 ^ exp` that reads back as `m * 2 ^ q`. Of two, it is the nearer one,
and the upper one when both are equally near. -/
def onGrid? (m : Nat) (q exp : Int) : Option (Nat × Int) :=
  let num := m * Nat.pow 2 q.toNat * Nat.pow 10 (-exp).toNat
  let den := Nat.pow 2 (-q).toNat * Nat.pow 10 exp.toNat
  let low := num / den
  let lowFits := readsBack m q low exp
  let highFits := readsBack m q (low + 1) exp
  if lowFits && (!highFits || 2 * (num % den) < den) then some (low, exp)
  else if highFits then some (low + 1, exp)
  else none

/-- The shortest numeral that reads back as `m * 2 ^ q`; the number itself has one, in any case. -/
def shortest (m : Nat) (q : Int) : Nat × Int :=
  let k := decimalExponent m q
  ((List.range 17).findSome? fun n => onGrid? m q (k - Int.ofNat n - 1)).getD
    (m * Nat.pow 2 q.toNat * Nat.pow 5 (-q).toNat, min q 0)

/-- The numeral `digits * 10 ^ exp` in positional notation. -/
def positional (digits : Nat) (exp : Int) : String :=
  let ds := Nat.toDigits 10 digits
  if 0 ≤ exp then String.ofList (ds ++ List.replicate exp.toNat '0')
  else
    let places := (-exp).toNat
    let all := List.replicate (places + 1 - ds.length) '0' ++ ds
    let whole := all.take (all.length - places)
    let fraction := ((all.drop (all.length - places)).reverse.dropWhile (· == '0')).reverse
    String.ofList (if fraction.isEmpty then whole else whole ++ '.' :: fraction)

/-- The number in writing. -/
def text : Double → String
  | .nan => "NaN"
  | .infinite negative => if negative then "-inf" else "inf"
  | .finite negative m q =>
    (if negative then "-" else "") ++
      (if m = 0 then "0" else positional (shortest m q).1 (shortest m q).2)

end Double

end Offside
