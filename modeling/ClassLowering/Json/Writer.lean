import ClassLowering.Json.Basic
import ClassLowering.Text

/-!
# Writing JSON

A value is written on one line without blanks, or with one item to a line, indented by two blanks
for each level. In strings the quote, the backslash and the control characters are escaped; all
other characters stand for themselves.
-/

set_option autoImplicit false

namespace ClassLowering.Json

open Text (joinWith)

def hexChar (n : Nat) : Char := Nat.digitChar (n % 16)

def escapeChar (c : Char) : List Char :=
  match c with
  | '"' => ['\\', '"']
  | '\\' => ['\\', '\\']
  | '\x08' => ['\\', 'b']
  | '\x0c' => ['\\', 'f']
  | '\n' => ['\\', 'n']
  | '\r' => ['\\', 'r']
  | '\t' => ['\\', 't']
  | c =>
    if c.toNat < 0x20 then ['\\', 'u', '0', '0', hexChar (c.toNat / 16), hexChar c.toNat]
    else [c]

def quote (s : String) : String :=
  String.ofList ('"' :: s.toList.flatMap escapeChar ++ ['"'])

mutual

def compact : Json → String
  | null => "null"
  | bool b => if b then "true" else "false"
  | number literal => literal
  | str s => quote s
  | arr items => "[" ++ joinWith "," (compactItems items) ++ "]"
  | obj members => "\x7b" ++ joinWith "," (compactMembers members) ++ "\x7d"
  | garbled => "null"

def compactItems : List Json → List String
  | [] => []
  | j :: rest => compact j :: compactItems rest

def compactMembers : List (String × Json) → List String
  | [] => []
  | (key, j) :: rest => (quote key ++ ":" ++ compact j) :: compactMembers rest

end

def bracketed (level : Nat) (first last : String) (items : List String) : String :=
  if items.isEmpty then first ++ last
  else
    let inner := "\n" ++ Text.replicate (level + 1) "  "
    first ++ inner ++ joinWith ("," ++ inner) items ++ "\n" ++ Text.replicate level "  " ++ last

mutual

/-- The value with one item to a line, where its first line stands at the given level. -/
def pretty (level : Nat) : Json → String
  | arr items => bracketed level "[" "]" (prettyItems (level + 1) items)
  | obj members => bracketed level "\x7b" "\x7d" (prettyMembers (level + 1) members)
  | null => "null"
  | bool b => if b then "true" else "false"
  | number literal => literal
  | str s => quote s
  | garbled => "null"

def prettyItems (level : Nat) : List Json → List String
  | [] => []
  | j :: rest => pretty level j :: prettyItems level rest

def prettyMembers (level : Nat) : List (String × Json) → List String
  | [] => []
  | (key, j) :: rest => (quote key ++ ": " ++ pretty level j) :: prettyMembers level rest

end

end ClassLowering.Json
