/-!
# Strings and comments in TOML

Readers take the characters that are left and give what they read with the characters after it. A
string stands between quotes or apostrophes, one on each side for a string on one line and three
for a string over several; only strings in quotes have escapes. Line breaks inside a string count
as one character, however they are written.
-/

set_option autoImplicit false

namespace ClassLowering.Toml.Read

abbrev Scanner (α : Type) := List Char → Option (α × List Char)

def isBlank (c : Char) : Bool := c = ' ' || c = '\t'

def skipBlanks (cs : List Char) : List Char := cs.dropWhile isBlank

def isLineChar (c : Char) : Bool := c = '\t' || (0x20 ≤ c.toNat && c.toNat ≠ 0x7F)

def newline? : List Char → Option (List Char)
  | '\n' :: rest => some rest
  | '\r' :: '\n' :: rest => some rest
  | _ => none

/-- What follows the end of a line; the end of the text ends a line too. -/
def lineEnd? : List Char → Option (List Char)
  | [] => some []
  | cs => newline? cs

def skipComment : List Char → List Char
  | '#' :: rest => rest.dropWhile isLineChar
  | cs => cs

def restOfLine? (cs : List Char) : Option (List Char) := lineEnd? (skipComment (skipBlanks cs))

def hexValue? (c : Char) : Option Nat :=
  if c.isDigit then some (c.toNat - '0'.toNat)
  else if 'a' ≤ c ∧ c ≤ 'f' then some (c.toNat - 'a'.toNat + 10)
  else if 'A' ≤ c ∧ c ≤ 'F' then some (c.toNat - 'A'.toNat + 10)
  else none

def charOfHex? (digits : List Char) : Option Char := do
  let n := (← digits.mapM hexValue?).foldl (fun n d => 16 * n + d) 0
  if n.isValidChar then return Char.ofNat n else none

def escapedChar? : Char → Option Char
  | 'b' => some '\x08'
  | 't' => some '\t'
  | 'n' => some '\n'
  | 'f' => some '\x0c'
  | 'r' => some '\r'
  | '"' => some '"'
  | '\\' => some '\\'
  | _ => none

def quotedLine (done : List Char) : Scanner String
  | '"' :: rest => some (String.ofList done.reverse, rest)
  | '\\' :: 'u' :: a :: b :: c :: d :: rest => do
    quotedLine ((← charOfHex? [a, b, c, d]) :: done) rest
  | '\\' :: 'U' :: a :: b :: c :: d :: e :: f :: g :: h :: rest => do
    quotedLine ((← charOfHex? [a, b, c, d, e, f, g, h]) :: done) rest
  | '\\' :: c :: rest => do quotedLine ((← escapedChar? c) :: done) rest
  | c :: rest => if isLineChar c then quotedLine (c :: done) rest else none
  | [] => none

def plainLine (done : List Char) : Scanner String
  | '\'' :: rest => some (String.ofList done.reverse, rest)
  | c :: rest => if isLineChar c then plainLine (c :: done) rest else none
  | [] => none

/-- The end of a string over several lines, after its three closing marks: up to two more marks
still belong to the string. -/
def closeLines (mark : Char) (done : List Char) (rest : List Char) : String × List Char :=
  let extra := (rest.takeWhile (· = mark)).take 2
  (String.ofList (done.reverse ++ extra), rest.drop extra.length)

def endsLine (cs : List Char) : Bool := (newline? (skipBlanks cs)).isSome

/-- The rest of a string in quotes over several lines. After a backslash at the end of a line, all
blanks and line breaks up to the next character are passed over. -/
def quotedLines (skipping : Bool) (done : List Char) : Scanner String
  | '"' :: '"' :: '"' :: rest => some (closeLines '"' done rest)
  | '\\' :: 'u' :: a :: b :: c :: d :: rest => do
    quotedLines false ((← charOfHex? [a, b, c, d]) :: done) rest
  | '\\' :: 'U' :: a :: b :: c :: d :: e :: f :: g :: h :: rest => do
    quotedLines false ((← charOfHex? [a, b, c, d, e, f, g, h]) :: done) rest
  | '\\' :: c :: rest =>
    if endsLine (c :: rest) then quotedLines true done (c :: rest)
    else do quotedLines false ((← escapedChar? c) :: done) rest
  | '\r' :: '\n' :: rest => quotedLines skipping (if skipping then done else '\n' :: done) rest
  | c :: rest =>
    if skipping && (isBlank c || c = '\n') then quotedLines true done rest
    else if c = '\n' || isLineChar c then quotedLines false (c :: done) rest
    else none
  | [] => none

def plainLines (done : List Char) : Scanner String
  | '\'' :: '\'' :: '\'' :: rest => some (closeLines '\'' done rest)
  | '\r' :: '\n' :: rest => plainLines ('\n' :: done) rest
  | c :: rest => if c = '\n' || isLineChar c then plainLines (c :: done) rest else none
  | [] => none

def skipNewline (cs : List Char) : List Char := (newline? cs).getD cs

def string : Scanner String
  | '"' :: '"' :: '"' :: rest => quotedLines false [] (skipNewline rest)
  | '"' :: rest => quotedLine [] rest
  | '\'' :: '\'' :: '\'' :: rest => plainLines [] (skipNewline rest)
  | '\'' :: rest => plainLine [] rest
  | _ => none

end ClassLowering.Toml.Read
