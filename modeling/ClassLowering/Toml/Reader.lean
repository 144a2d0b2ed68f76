import ClassLowering.Toml.Scalar
import ClassLowering.Toml.Table

/-!
# Reading TOML

A document is a sequence of lines: blank ones, comments, headers in brackets, and values for keys.
Arrays and tables in braces may be nested up to `nestingLimit` levels, and a dotted key has at most
as many parts.
-/

set_option autoImplicit false

namespace ClassLowering.Toml.Read

/-- How deep values may be nested, and how many parts a dotted key may have. -/
def nestingLimit : Nat := 79

def isKeyChar (c : Char) : Bool := c.isAlphanum || c = '-' || c = '_'

def keyPart : Scanner String
  | '"' :: rest => quotedLine [] rest
  | '\'' :: rest => plainLine [] rest
  | cs =>
    let name := cs.takeWhile isKeyChar
    if name.isEmpty then none else some (String.ofList name, cs.dropWhile isKeyChar)

def keyParts (cs : List Char) : Option (List String × List Char) := do
  let (first, rest) ← keyPart (skipBlanks cs)
  match skipBlanks rest with
  | '.' :: more =>
    if _h : more.length < cs.length then
      let (others, rest) ← keyParts more
      return (first :: others, rest)
    else none
  | rest => return ([first], rest)
termination_by cs.length

def dottedKey (cs : List Char) : Option ((List String × String) × List Char) := do
  let (parts, rest) ← keyParts cs
  if nestingLimit < parts.length then none
  return ((parts.dropLast, ← parts.getLast?), rest)

def skipLines (cs : List Char) : Option (List Char) :=
  match skipBlanks cs with
  | '#' :: rest => do
    let after ← lineEnd? (rest.dropWhile isLineChar)
    if _h : after.length < cs.length then skipLines after else none
  | rest =>
    match newline? rest with
    | some after => if _h : after.length < cs.length then skipLines after else none
    | none => some rest
termination_by cs.length

def arrayItems (value : Scanner Toml) (cs : List Char) : Option (List Toml × List Char) := do
  match ← skipLines cs with
  | ']' :: rest => return ([], rest)
  | start =>
    let (v, rest) ← value start
    match ← skipLines rest with
    | ']' :: rest => return ([v], rest)
    | ',' :: rest =>
      if _h : rest.length < cs.length then
        let (others, rest) ← arrayItems value rest
        return (v :: others, rest)
      else none
    | _ => none
termination_by cs.length

def keyValue (value : Scanner Toml) (cs : List Char) :
    Option ((List String × String × Toml) × List Char) := do
  let ((path, key), rest) ← dottedKey cs
  let (_, rest) ← mark '=' rest
  let (v, rest) ← value (skipBlanks rest)
  return ((path, key, v), rest)

def bracedMembers (value : Scanner Toml) (cs : List Char) :
    Option (List (List String × String × Toml) × List Char) := do
  let (member, rest) ← keyValue value cs
  match skipBlanks rest with
  | '\x7d' :: rest => return ([member], rest)
  | ',' :: rest =>
    if _h : rest.length < cs.length then
      let (others, rest) ← bracedMembers value rest
      return (member :: others, rest)
    else none
  | _ => none
termination_by cs.length

def bracedTable (value : Scanner Toml) (cs : List Char) : Option (Toml × List Char) :=
  match skipBlanks cs with
  | '\x7d' :: rest => some (.braced [], rest)
  | cs => do
    let (members, rest) ← bracedMembers value cs
    return (← bracedOf? members, rest)

/-- A value that is nested at most `room` levels deep. -/
def value : Nat → Scanner Toml
  | 0, cs => scalar cs
  | room + 1, cs =>
    match cs with
    | '[' :: rest => do
      let (items, rest) ← arrayItems (value room) rest
      return (.array items, rest)
    | '\x7b' :: rest => bracedTable (value room) rest
    | cs => scalar cs

def statement (cs : List Char) : Option (Statement × List Char) := do
  match cs with
  | '[' :: '[' :: rest =>
    let ((path, key), rest) ← dottedKey rest
    let (_, rest) ← mark ']' rest
    let (_, rest) ← mark ']' rest
    return (.item path key, ← restOfLine? rest)
  | '[' :: rest =>
    let ((path, key), rest) ← dottedKey rest
    let (_, rest) ← mark ']' rest
    return (.table path key, ← restOfLine? rest)
  | cs =>
    let ((path, key, v), rest) ← keyValue (value nestingLimit) cs
    return (.assign path key v, ← restOfLine? rest)

def statements (cs : List Char) : Option (List Statement) :=
  match skipLines cs with
  | none => none
  | some [] => some []
  | some start => do
    let (first, rest) ← statement start
    if _h : rest.length < cs.length then return first :: (← statements rest) else none
termination_by cs.length

end ClassLowering.Toml.Read

namespace ClassLowering.Toml

def parse? (text : String) : Option Entries := do
  let cs := match text.toList with
    | '\ufeff' :: rest => rest
    | cs => cs
  fill (← Read.statements cs)

end ClassLowering.Toml
