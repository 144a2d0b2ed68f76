/-!
# Double precision

What has to be known of double precision to tell which numbers are too large for it. A number is
rounded to 53 binary digits, and a half goes to the even neighbour; what is not below
`overflowBound` before it is rounded is infinite afterwards.
-/

set_option autoImplicit false

namespace ClassLowering.Double

/-- The whole number nearest to a quotient; a half goes to the even neighbour. -/
def roundDiv (n d : Nat) : Nat :=
  let q := n / d
  let r := n % d
  if 2 * r < d then q
  else if d < 2 * r then q + 1
  else q + q % 2

def precision : Nat := 53

def round (n : Nat) : Nat :=
  let unit := Nat.pow 2 (n.log2 + 1 - precision)
  roundDiv n unit * unit

def overflowBound : Nat := Nat.pow 2 1024 - Nat.pow 2 970

def maxPowerOfTen : Nat := 308

/-- Whether `digits` times a power of ten, taken exactly and then rounded, is finite. -/
def isFiniteDecimal (digits : Nat) (exponent : Int) : Bool :=
  if digits = 0 then true
  else
    let magnitude : Int := (Nat.toDigits 10 digits).length + exponent
    if magnitude ≤ maxPowerOfTen then true
    else if maxPowerOfTen + 1 < magnitude then false
    else if 0 ≤ exponent then digits * Nat.pow 10 exponent.toNat < overflowBound
    else digits < overflowBound * Nat.pow 10 (-exponent).toNat

/-- Whether the product of a number and a power of ten is finite, where both factors are rounded
before they are multiplied. -/
def isFiniteProduct (n : Nat) (exponent : Int) : Bool :=
  if n = 0 || exponent ≤ 0 then true
  else if maxPowerOfTen < exponent then false
  else round n * round (Nat.pow 10 exponent.toNat) < overflowBound

end ClassLowering.Double
