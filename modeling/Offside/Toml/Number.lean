import Offside.Double
import Offside.Text.Digits

/-!
# Numbers in TOML

Integers of base ten, sixteen, eight and two, and numbers with a fraction or an exponent. Single
underscores may stand between digits. An integer has to fit into 64 bits.
-/

set_option autoImplicit false

namespace Offside.Toml

open Scanner

/-- Digits of a base, with single underscores between them. -/
def digits (base : Nat) : Scanner (List Char) := do
  let first ← char (Text.isDigitOf base)
  let rest ← many (char (Text.isDigitOf base) <|> do
    exactly '_'
    char (Text.isDigitOf base))
  pure (first :: rest)

/-- A sign, if there is one: whether it is a minus. -/
def sign : Scanner Bool := do
  let c ← maybe (char fun c => c == '+' || c == '-')
  pure (c == some '-')

/-- The digits in front of the point: a zero stands alone. -/
def wholeDigits : Scanner (List Char) :=
  (do exactly '0'; pure ['0']) <|> digits 10

/-- A number, with its sign. -/
def signed (negative : Bool) (n : Nat) : Int :=
  if negative then -Int.ofNat n else Int.ofNat n

/-- An integer behind the sign of its base. -/
def based : Scanner Int :=
  (do word "0x"; pure (Int.ofNat (Text.ofDigits 16 (← digits 16)))) <|>
  (do word "0o"; pure (Int.ofNat (Text.ofDigits 8 (← digits 8)))) <|>
  (do word "0b"; pure (Int.ofNat (Text.ofDigits 2 (← digits 2))))

/-- An integer of base ten. -/
def decimal : Scanner Int := do
  let negative ← sign
  let whole ← wholeDigits
  pure (signed negative (Text.ofDigits 10 whole))

/-- An integer. -/
def integer : Scanner Int := do
  let n ← based <|> decimal
  check (Int64.minValue.toInt ≤ n && n ≤ Int64.maxValue.toInt)
  pure n

/-- An exponent. -/
def exponent : Scanner Int := do
  let _ ← char fun c => c == 'e' || c == 'E'
  let negative ← sign
  let n ← digits 10
  pure (signed negative (Text.ofDigits 10 n))

/-- The digits behind the point. -/
def fraction : Scanner (List Char) := do
  exactly '.'
  digits 10

/-- A number with a fraction, an exponent, or both. It must not be too large. -/
def scientific : Scanner Double := do
  let negative ← sign
  let whole ← wholeDigits
  let places ← maybe fraction
  let exp ← maybe exponent
  check (places.isSome || exp.isSome)
  let places := places.getD []
  let x := Double.ofDecimal negative (Text.ofDigits 10 (whole ++ places))
    (exp.getD 0 - Int.ofNat places.length)
  check (x != .infinite false)
  pure x

/-- An infinity, or no number at all. -/
def special : Scanner Double := do
  let negative ← sign
  (do word "inf"; pure (.infinite negative)) <|> (do word "nan"; pure .nan)

/-- A number that is no integer. -/
def double : Scanner Double :=
  scientific <|> special

end Offside.Toml
