import ClassLowering.Json.Basic
import ClassLowering.Json.Number

/-!
# Reading JSON

A text is read one character at a time. `Scan` groups characters into tokens, and `Parse` is a
machine with a stack that turns tokens into a value, so neither the length of a text nor its
nesting limits what can be read. `Json.parse?` accepts exactly the texts of one value with blanks
around it.
-/

set_option autoImplicit false

namespace ClassLowering.Json

inductive Token where
  | openArray | closeArray | openObject | closeObject | comma | colon
  /-- A string, or `none` if it has half of a surrogate pair. -/
  | str (s : Option String)
  | atom (j : Json)

/-! ## From characters to tokens -/

/-- Where in a token the reader is. Characters and code points are collected in reverse. -/
inductive Scan where
  | between
  | word (chars : List Char)
  | string (points : List Nat)
  | escape (points : List Nat)
  | hex (points : List Nat) (missing value : Nat)

def isBlank (c : Char) : Bool := c = ' ' || c = '\t' || c = '\n' || c = '\r'

def isWordChar (c : Char) : Bool := c.isAlphanum || c = '+' || c = '-' || c = '.'

def hexDigit? (c : Char) : Option Nat :=
  if c.isDigit then some (c.toNat - '0'.toNat)
  else if 'a' ≤ c ∧ c ≤ 'f' then some (c.toNat - 'a'.toNat + 10)
  else if 'A' ≤ c ∧ c ≤ 'F' then some (c.toNat - 'A'.toNat + 10)
  else none

def isHighSurrogate (n : Nat) : Bool := 0xD800 ≤ n && n < 0xDC00

def isLowSurrogate (n : Nat) : Bool := 0xDC00 ≤ n && n < 0xE000

/-- The characters that code points stand for, where two halves of a surrogate pair stand for one
character. -/
def decodePoints : List Nat → Option (List Char)
  | [] => some []
  | high :: low :: rest =>
    if isHighSurrogate high then
      if isLowSurrogate low then
        (decodePoints rest).map
          (Char.ofNat (0x10000 + (high - 0xD800) * 0x400 + (low - 0xDC00)) :: ·)
      else none
    else if isLowSurrogate high then none
    else (decodePoints (low :: rest)).map (Char.ofNat high :: ·)
  | [point] =>
    if isHighSurrogate point || isLowSurrogate point then none else some [Char.ofNat point]

def wordToken (chars : List Char) : Option Token :=
  match String.ofList chars with
  | "null" => some (.atom .null)
  | "true" => some (.atom (.bool true))
  | "false" => some (.atom (.bool false))
  | literal =>
    (Number.parse? chars).map fun d => .atom (if d.isFinite then .number literal else .garbled)

def escaped? : Char → Option Nat
  | '"' => some 0x22
  | '\\' => some 0x5C
  | '/' => some 0x2F
  | 'b' => some 0x08
  | 'f' => some 0x0C
  | 'n' => some 0x0A
  | 'r' => some 0x0D
  | 't' => some 0x09
  | _ => none

def Scan.start (c : Char) : Option (Scan × List Token) :=
  if isBlank c then some (.between, [])
  else if isWordChar c then some (.word [c], [])
  else match c with
    | '[' => some (.between, [.openArray])
    | ']' => some (.between, [.closeArray])
    | '\x7b' => some (.between, [.openObject])
    | '\x7d' => some (.between, [.closeObject])
    | ',' => some (.between, [.comma])
    | ':' => some (.between, [.colon])
    | '"' => some (.string [], [])
    | _ => none

def Scan.step : Scan → Char → Option (Scan × List Token)
  | between, c => start c
  | word chars, c =>
    if isWordChar c then some (word (c :: chars), [])
    else do
      let token ← wordToken chars.reverse
      let (next, tokens) ← start c
      return (next, token :: tokens)
  | string points, c =>
    if c = '"' then
      some (between, [.str ((decodePoints points.reverse).map String.ofList)])
    else if c = '\\' then some (escape points, [])
    else if c.toNat < 0x20 then none
    else some (string (c.toNat :: points), [])
  | escape points, c =>
    if c = 'u' then some (hex points 3 0, [])
    else (escaped? c).map fun point => (string (point :: points), [])
  | hex points missing value, c => do
    let value := 16 * value + (← hexDigit? c)
    match missing with
    | 0 => return (string (value :: points), [])
    | missing + 1 => return (hex points missing value, [])

def Scan.finish : Scan → Option (List Token)
  | between => some []
  | word chars => (wordToken chars.reverse).map ([·])
  | _ => none

/-! ## From tokens to a value -/

/-- An array or object that is not closed yet, with its last value still to come. What it already
holds is in reverse. -/
inductive Frame where
  | item (before : List Json)
  | member (before : List (Option String × Json)) (key : Option String)

inductive Parse where
  | value (outer : List Frame)
  | firstItem (outer : List Frame)
  | firstKey (outer : List Frame)
  | key (outer : List Frame) (before : List (Option String × Json))
  | colon (outer : List Frame) (before : List (Option String × Json)) (key : Option String)
  | after (outer : List Frame) (j : Json)

def object (members : List (Option String × Json)) : Json :=
  match members.mapM fun (key, j) => key.map (·, j) with
  | some members => .obj members
  | none => .garbled

def Parse.start (outer : List Frame) : Token → Option Parse
  | .openArray => some (firstItem outer)
  | .openObject => some (firstKey outer)
  | .str (some s) => some (after outer (.str s))
  | .str none => some (after outer .garbled)
  | .atom j => some (after outer j)
  | _ => none

def Parse.step : Parse → Token → Option Parse
  | value outer, token => start outer token
  | firstItem outer, .closeArray => some (after outer (.arr []))
  | firstItem outer, token => start (.item [] :: outer) token
  | firstKey outer, .closeObject => some (after outer (.obj []))
  | firstKey outer, .str k => some (colon outer [] k)
  | key outer before, .str k => some (colon outer before k)
  | colon outer before k, .colon => some (value (.member before k :: outer))
  | after (.item before :: outer) j, .comma => some (value (.item (j :: before) :: outer))
  | after (.item before :: outer) j, .closeArray =>
    some (after outer (.arr (j :: before).reverse))
  | after (.member before k :: outer) j, .comma => some (key outer ((k, j) :: before))
  | after (.member before k :: outer) j, .closeObject =>
    some (after outer (object ((k, j) :: before).reverse))
  | _, _ => none

def Parse.finish : Parse → Option Json
  | after [] j => some j
  | _ => none

/-! ## Both together -/

structure Reader where
  scan : Scan
  parse : Parse

namespace Reader

def start : Reader := ⟨.between, .value []⟩

def step (r : Reader) (c : Char) : Option Reader := do
  let (scan, tokens) ← r.scan.step c
  return ⟨scan, ← tokens.foldlM Parse.step r.parse⟩

def finish (r : Reader) : Option Json := do
  (← (← r.scan.finish).foldlM Parse.step r.parse).finish

end Reader

def parse? (s : String) : Option Json := do
  (← s.toList.foldlM Reader.step Reader.start).finish

end ClassLowering.Json
