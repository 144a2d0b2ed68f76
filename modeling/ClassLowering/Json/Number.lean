import ClassLowering.Double

/-!
# JSON numbers

A number is an optional sign, an integer part without leading zeros, and optionally a fraction and
an exponent. Its size is judged by a significand of 64 bits and a power of ten. Digits are taken
into the significand from the left as long as it can hold them; a digit of the integer part that is
left out raises the power of ten, a digit of the fraction that is left out counts for nothing. The
number is too large if the significand and the power of ten, each in double precision, have an
infinite product.
-/

set_option autoImplicit false

namespace ClassLowering.Json.Number

structure Decimal where
  significand : Nat
  exponent : Int

def significandBound : Nat := 18446744073709551616

def digitValue (c : Char) : Nat := c.toNat - '0'.toNat

/-- Appends digits to a significand as long as it can hold them, and gives the digits left over. -/
def absorb : Nat → List Char → Nat × List Char
  | n, [] => (n, [])
  | n, c :: rest =>
    let next := 10 * n + digitValue c
    if next < significandBound then absorb next rest else (n, c :: rest)

def ofWhole (digits : List Char) : Decimal :=
  let (n, dropped) := absorb 0 digits
  ⟨n, dropped.length⟩

namespace Decimal

def addFraction (d : Decimal) (digits : List Char) : Decimal :=
  let (n, dropped) := absorb d.significand digits
  ⟨n, d.exponent - (digits.length - dropped.length)⟩

def scale (d : Decimal) (power : Int) : Decimal := { d with exponent := d.exponent + power }

def isFinite (d : Decimal) : Bool := Double.isFiniteProduct d.significand d.exponent

end Decimal

def value (digits : List Char) : Nat := digits.foldl (fun n c => 10 * n + digitValue c) 0

def exponent? : List Char → Option Int
  | [] => some 0
  | c :: rest =>
    if c = 'e' || c = 'E' then
      let (negative, digits) := match rest with
        | '+' :: digits => (false, digits)
        | '-' :: digits => (true, digits)
        | digits => (false, digits)
      if !digits.isEmpty && digits.all Char.isDigit then
        let n : Int := value digits
        some (if negative then -n else n)
      else none
    else none

def tail? (whole : Decimal) : List Char → Option Decimal
  | '.' :: rest =>
    let fraction := rest.takeWhile Char.isDigit
    if fraction.isEmpty then none
    else (exponent? (rest.dropWhile Char.isDigit)).map (whole.addFraction fraction).scale
  | rest => (exponent? rest).map whole.scale

def parse? (literal : List Char) : Option Decimal :=
  let unsigned := match literal with
    | '-' :: rest => rest
    | all => all
  match unsigned with
  | [] => none
  | '0' :: rest => tail? (ofWhole ['0']) rest
  | first :: _ =>
    if first.isDigit then
      tail? (ofWhole (unsigned.takeWhile Char.isDigit)) (unsigned.dropWhile Char.isDigit)
    else none

end ClassLowering.Json.Number
