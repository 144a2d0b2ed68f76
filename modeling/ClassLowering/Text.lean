/-!
# Joining and splitting text

Small operations on text that the rest of the library builds on. Splitting is done on lists of
characters, so that it follows their structure.
-/

set_option autoImplicit false

namespace ClassLowering.Text

def joinWith (mark : String) : List String → String
  | [] => ""
  | [s] => s
  | s :: rest => s ++ mark ++ joinWith mark rest

def concat : List String → String
  | [] => ""
  | s :: rest => s ++ concat rest

theorem concat_append (a b : List String) : concat (a ++ b) = concat a ++ concat b := by
  induction a with
  | nil => simp [concat]
  | cons s rest ih => simp [concat, ih, String.append_assoc]

def replicate (n : Nat) (s : String) : String := concat (List.replicate n s)

/-- The stretches between the occurrences of `mark`; there is always at least one. -/
def segments (mark : Char) : List Char → List (List Char)
  | [] => [[]]
  | c :: rest =>
    if c = mark then [] :: segments mark rest
    else match segments mark rest with
      | [] => [[c]]
      | first :: more => (c :: first) :: more

def splitOn (mark : Char) (s : String) : List String :=
  (segments mark s.toList).map String.ofList

/-- What follows the last occurrence of `mark`, or everything. -/
def afterLast (mark : Char) (s : String) : String :=
  (splitOn mark s).getLastD s

def cutScope : List Char → Option (List Char × List Char)
  | [] => none
  | c :: rest =>
    match cutScope rest with
    | some (scope, name) => some (c :: scope, name)
    | none =>
      match c, rest with
      | ':', ':' :: name => some ([], name)
      | _, _ => none

end ClassLowering.Text
