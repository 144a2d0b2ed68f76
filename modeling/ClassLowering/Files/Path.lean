import ClassLowering.Text

/-!
# The text of paths

A path is a text with slashes between names. Nothing is normalized: `.` and empty names stay where
they are, and they count when the length of a path is measured. `draftPath` is where a file is
prepared before it is put in its place: under a name of its own, in the directory of the file.
-/

set_option autoImplicit false

namespace ClassLowering

/-- Where a name leads when it is looked up from a directory. An absolute name stands for itself. -/
def joinPath (dir name : String) : String :=
  if name.startsWith "/" then name
  else if dir = "" || dir.endsWith "/" then dir ++ name
  else dir ++ "/" ++ name

namespace PathText

def maxNameSize : Nat := 255

def maxPathSize : Nat := 4095

def names (path : String) : List String := Text.splitOn '/' path

def isUsable (path : String) : Bool :=
  path.utf8ByteSize ≤ maxPathSize && !path.toList.contains '\x00'

def moves (name : String) : Bool := name ≠ "" && name ≠ "."

/-- The names up to the last one that leads somewhere else. -/
def upToLastMove (names : List String) : List String :=
  (names.reverse.dropWhile (!moves ·)).reverse

def directory (path : String) : String :=
  match upToLastMove (names path).dropLast with
  | [] => if path.startsWith "/" then "/" else "."
  | around => Text.joinWith "/" around

def draftName (mark : String) : String := ".tmp" ++ mark

def draftPath (workingDirectory path mark : String) : String :=
  joinPath (joinPath workingDirectory (directory path)) (draftName mark)

end PathText

end ClassLowering
