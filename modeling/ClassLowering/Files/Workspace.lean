import ClassLowering.Files.Path
import ClassLowering.Files.Storage

/-!
# A file tree with a working directory

A `Workspace` holds directories and files, each at the place that the names from the root lead to.
A path is followed name by name, from the root if it is absolute and from the working directory
otherwise; `.` stays, `..` goes back, and each name passed on the way has to be a directory. The
working directory and the directories around it are always there. Listings show what is below the
working directory.
-/

set_option autoImplicit false

namespace ClassLowering

abbrev Place := List String

structure Workspace where
  /-- The working directory, by itself one with an arbitrary name among the temporary files. -/
  home : Place := ["tmp", ".tmp000000"]
  dirs : List Place := []
  files : List (Place × String) := []

namespace Workspace

open PathText (isUsable moves upToLastMove)

def isDir (w : Workspace) (place : Place) : Bool :=
  place.isPrefixOf w.home || w.dirs.contains place

def file? (w : Workspace) (place : Place) : Option String := w.files.lookup place

def homePath (w : Workspace) : String := "/" ++ Text.joinWith "/" w.home

def start (w : Workspace) (path : String) : Place := if path.startsWith "/" then [] else w.home

def isName (s : String) : Bool :=
  moves s && s ≠ ".." && s.utf8ByteSize ≤ PathText.maxNameSize

def follow (w : Workspace) : Place → List String → Option Place
  | place, [] => some place
  | place, name :: rest =>
    if !moves name then w.follow place rest
    else if name = ".." then w.follow place.dropLast rest
    else if w.isDir (place ++ [name]) then w.follow (place ++ [name]) rest
    else none

def locate? (w : Workspace) (path : String) : Option Place := do
  if !isUsable path then none
  let names := PathText.names path
  let name ← names.getLast?
  if !isName name then none
  return (← w.follow (w.start path) names.dropLast) ++ [name]

def read? (w : Workspace) (path : String) : Option String := do
  w.file? (← w.locate? path)

def putFile (place : Place) (text : String) : List (Place × String) → List (Place × String)
  | [] => [(place, text)]
  | first :: rest =>
    if first.1 = place then (place, text) :: rest else first :: putFile place text rest

def put? (w : Workspace) (path text : String) : Option Workspace := do
  let place ← w.locate? path
  if w.isDir place then none
  return { w with files := putFile place text w.files }

/-- Replaces a file by one that was prepared beside it, which needs a path that can be followed
too. -/
def write? (w : Workspace) (path text : String) : Option Workspace :=
  if isUsable (PathText.draftPath w.homePath path "000000") then w.put? path text else none

instance : FileSystem Workspace := ⟨read?, write?⟩

/-- Makes the directories on a path from `place` that are missing, and says whether the end of the
path was reached. What was made before a name that cannot be passed stays. -/
def makeDirs (w : Workspace) : Place → List String → Workspace × Bool
  | _, [] => (w, true)
  | place, name :: rest =>
    if !moves name then w.makeDirs place rest
    else if name = ".." then w.makeDirs place.dropLast rest
    else
      let next := place ++ [name]
      if w.isDir next then w.makeDirs next rest
      else if !isName name || (w.file? next).isSome then (w, false)
      else makeDirs { w with dirs := w.dirs ++ [next] } next rest

/-- Makes a directory and those around it that are missing. A dot at the end of the path stands for
a directory that is there already, so the last name before it is not made. -/
def mkdir (w : Workspace) (path : String) : Workspace × Bool :=
  if !isUsable path then (w, false)
  else
    let names := (PathText.names path).filter (· ≠ "")
    let undotted := upToLastMove names
    if undotted.length = names.length then w.makeDirs (w.start path) names
    else
      let (made, reached) := w.makeDirs (w.start path) undotted.dropLast
      (made, reached && (made.follow (w.start path) undotted).isSome)

def listing (w : Workspace) : List (String × String) :=
  let below := w.files.filter fun (place, _) => w.home.isPrefixOf place
  (below.map fun (place, text) => (Text.joinWith "/" (place.drop w.home.length), text)).mergeSort
    fun a b => a.1 ≤ b.1

def changesSince (w old : Workspace) : List (String × String) :=
  let before := old.listing
  w.listing.filter fun (path, text) => before.lookup path ≠ some text

end Workspace

end ClassLowering
