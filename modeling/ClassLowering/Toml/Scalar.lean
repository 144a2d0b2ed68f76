import ClassLowering.Double
import ClassLowering.Toml.Basic
import ClassLowering.Toml.Text

/-!
# Numbers, dates and truth values in TOML

Digits may be separated by single underscores. Integers have 64 bits; a float must not exceed the
range of double precision on the positive side. Dates exist in the calendar, and a time of day may
have a leap second.
-/

set_option autoImplicit false

namespace ClassLowering.Toml.Read

/-- Digits that may be separated by single underscores, after a first digit. -/
def moreDigits (isDigit : Char → Bool) (done : List Char) : Scanner (List Char)
  | '_' :: c :: rest => if isDigit c then moreDigits isDigit (c :: done) rest else none
  | '_' :: [] => none
  | c :: rest =>
    if isDigit c then moreDigits isDigit (c :: done) rest else some (done.reverse, c :: rest)
  | [] => some (done.reverse, [])

def digits (isDigit : Char → Bool) : Scanner (List Char)
  | c :: rest => if isDigit c then moreDigits isDigit [c] rest else none
  | [] => none

def sign : List Char → Bool × List Char
  | '-' :: rest => (true, rest)
  | '+' :: rest => (false, rest)
  | cs => (false, cs)

def wholeDigits : Scanner (List Char)
  | '0' :: rest => some (['0'], rest)
  | cs => digits Char.isDigit cs

def valueIn (base : Nat) (ds : List Char) : Nat :=
  ds.foldl (fun n c => base * n + (hexValue? c).getD 0) 0

def isHexDigit (c : Char) : Bool := (hexValue? c).isSome

def isOctalDigit (c : Char) : Bool := '0' ≤ c && c ≤ '7'

def isBinaryDigit (c : Char) : Bool := c = '0' || c = '1'

def integerBound : Int := 9223372036854775808

def integerOf? (n : Int) : Option Toml :=
  if -integerBound ≤ n ∧ n < integerBound then some (.integer n) else none

def basedInteger (base : Nat) (isDigit : Char → Bool) (cs : List Char) :
    Option (Toml × List Char) := do
  let (ds, rest) ← digits isDigit cs
  return (← integerOf? (valueIn base ds), rest)

def integer : Scanner Toml
  | '0' :: 'x' :: rest => basedInteger 16 isHexDigit rest
  | '0' :: 'o' :: rest => basedInteger 8 isOctalDigit rest
  | '0' :: 'b' :: rest => basedInteger 2 isBinaryDigit rest
  | cs => do
    let (negative, rest) := sign cs
    let (ds, rest) ← wholeDigits rest
    let n : Int := valueIn 10 ds
    return (← integerOf? (if negative then -n else n), rest)

def exponent : Scanner (Option Int)
  | c :: rest =>
    if c = 'e' || c = 'E' then do
      let (negative, rest) := sign rest
      let (ds, rest) ← digits Char.isDigit rest
      let n : Int := valueIn 10 ds
      return (some (if negative then -n else n), rest)
    else some (none, c :: rest)
  | [] => some (none, [])

def fraction : Scanner (List Char)
  | '.' :: rest => digits Char.isDigit rest
  | cs => some ([], cs)

def specialFloat : Scanner Toml
  | 'i' :: 'n' :: 'f' :: rest => some (.float "inf", rest)
  | 'n' :: 'a' :: 'n' :: rest => some (.float "nan", rest)
  | _ => none

/-- A number with a fraction or an exponent, or one that is not finite. -/
def float (cs : List Char) : Option (Toml × List Char) := do
  let (negative, unsigned) := sign cs
  if let some special := specialFloat unsigned then return special
  let (whole, rest) ← wholeDigits unsigned
  let (part, rest) ← fraction rest
  let (power, rest) ← exponent rest
  if part.isEmpty && power.isNone then none
  let isFinite := Double.isFiniteDecimal (valueIn 10 (whole ++ part)) (power.getD 0 - part.length)
  if !negative && !isFinite then none
  return (.float (String.ofList (cs.take (cs.length - rest.length))), rest)

/-! ## Dates and times -/

def twoDigits (low high : Nat) : Scanner Nat
  | a :: b :: rest =>
    let n := valueIn 10 [a, b]
    if a.isDigit && b.isDigit && low ≤ n && n ≤ high then some (n, rest) else none
  | _ => none

def isLeapYear (year : Nat) : Bool := year % 4 = 0 && (year % 100 ≠ 0 || year % 400 = 0)

def daysInMonth (year month : Nat) : Nat :=
  if month = 2 then (if isLeapYear year then 29 else 28)
  else if [4, 6, 9, 11].contains month then 30
  else 31

def mark (expected : Char) : Scanner Unit
  | c :: rest => if c = expected then some ((), rest) else none
  | [] => none

def date : Scanner Unit
  | a :: b :: c :: d :: rest => do
    if !(a.isDigit && b.isDigit && c.isDigit && d.isDigit) then none
    let year := valueIn 10 [a, b, c, d]
    let (_, rest) ← mark '-' rest
    let (month, rest) ← twoDigits 1 12 rest
    let (_, rest) ← mark '-' rest
    let (_, rest) ← twoDigits 1 (daysInMonth year month) rest
    return ((), rest)
  | _ => none

def secondFraction : List Char → List Char
  | '.' :: c :: rest => if c.isDigit then rest.dropWhile Char.isDigit else '.' :: c :: rest
  | cs => cs

def time (cs : List Char) : Option (Unit × List Char) := do
  let (_, rest) ← twoDigits 0 23 cs
  let (_, rest) ← mark ':' rest
  let (_, rest) ← twoDigits 0 59 rest
  let (_, rest) ← mark ':' rest
  let (_, rest) ← twoDigits 0 60 rest
  return ((), secondFraction rest)

def offset : Scanner Unit
  | c :: rest =>
    if c = 'Z' || c = 'z' then some ((), rest)
    else if c = '+' || c = '-' then do
      let (_, rest) ← twoDigits 0 23 rest
      let (_, rest) ← mark ':' rest
      let (_, rest) ← twoDigits 0 59 rest
      return ((), rest)
    else some ((), c :: rest)
  | [] => some ((), [])

def timeAfterDate : Scanner Unit
  | c :: rest =>
    if c = 'T' || c = 't' || c = ' ' then
      match time rest with
      | some (_, rest) => offset rest
      | none => some ((), c :: rest)
    else some ((), c :: rest)
  | [] => some ((), [])

def datetime (cs : List Char) : Option (Toml × List Char) := do
  let (_, rest) ← match date cs with
    | some (_, rest) => timeAfterDate rest
    | none => time cs
  return (.datetime (String.ofList (cs.take (cs.length - rest.length))), rest)

def boolean : Scanner Toml
  | 't' :: 'r' :: 'u' :: 'e' :: rest => some (.boolean true, rest)
  | 'f' :: 'a' :: 'l' :: 's' :: 'e' :: rest => some (.boolean false, rest)
  | _ => none

def scalar (cs : List Char) : Option (Toml × List Char) :=
  ((string cs).map fun (s, rest) => (.string s, rest))
    <|> datetime cs <|> float cs <|> integer cs <|> boolean cs

end ClassLowering.Toml.Read
