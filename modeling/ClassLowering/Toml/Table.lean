import ClassLowering.Toml.Basic

/-!
# Filling tables

A document is filled by statements: a value for a dotted key in the table of the last header, or a
new header. No key is given twice, and no table is defined twice.
-/

set_option autoImplicit false

namespace ClassLowering.Toml

/-- Changes the entries of the table that a key leads to, in the last item of a list of tables.
`enter` decides from its origin whether a table may be entered, and `missing` is the origin of a
table that is made because there is none. -/
def modifyTable (enter : Origin → Bool) (missing : Origin) (key : String)
    (change : Origin → Entries → Option Entries) (entries : Entries) : Option Entries :=
  match entries.lookup key with
  | none => do return entries.set key (.table missing (← change missing []))
  | some (.table origin inner) => do
    if !enter origin then none
    return entries.set key (.table origin (← change origin inner))
  | some (.tables items) => do
    let last ← items.getLast?
    return entries.set key (.tables (items.dropLast ++ [← change .header last]))
  | some _ => none

def addKey (key : String) (v : Toml) (entries : Entries) : Option Entries :=
  if (entries.lookup key).isSome then none else some (entries.set key v)

/-- Gives a value to a dotted key. The tables on its way are made by dotted keys only. -/
def assignIn (key : String) (v : Toml) : List String → Origin → Entries → Option Entries
  | [], origin, entries => if origin = .dotted then addKey key v entries else none
  | first :: path, _, entries =>
    modifyTable (· ≠ .header) .dotted first (assignIn key v path) entries

def assign (path : List String) (key : String) (v : Toml) (entries : Entries) : Option Entries :=
  match path with
  | [] => addKey key v entries
  | first :: path => modifyTable (· ≠ .header) .dotted first (assignIn key v path) entries

def modifyAt (change : Entries → Option Entries) : List String → Entries → Option Entries
  | [], entries => change entries
  | first :: path, entries =>
    modifyTable (fun _ => true) .path first (fun _ inner => modifyAt change path inner) entries

def openTable (key : String) (entries : Entries) : Option Entries :=
  match entries.lookup key with
  | none => some (entries.set key (.table .header []))
  | some (.table .path inner) => some (entries.set key (.table .header inner))
  | some _ => none

def openItem (key : String) (entries : Entries) : Option Entries :=
  match entries.lookup key with
  | none => some (entries.set key (.tables [[]]))
  | some (.tables items) => some (entries.set key (.tables (items ++ [[]])))
  | some _ => none

inductive Statement where
  /-- `path.key = v` -/
  | assign (path : List String) (key : String) (v : Toml)
  /-- `[path.key]` -/
  | table (path : List String) (key : String)
  /-- `[[path.key]]` -/
  | item (path : List String) (key : String)

structure Filling where
  entries : Entries := []
  current : List String := []

def Filling.step (f : Filling) : Statement → Option Filling
  | .assign path key v => do
    return { f with entries := ← modifyAt (Toml.assign path key v) f.current f.entries }
  | .table path key => do
    return { entries := ← modifyAt (openTable key) path f.entries, current := path ++ [key] }
  | .item path key => do
    return { entries := ← modifyAt (openItem key) path f.entries, current := path ++ [key] }

def fill (statements : List Statement) : Option Entries := do
  return (← statements.foldlM Filling.step {}).entries

def bracedOf? (members : List (List String × String × Toml)) : Option Toml := do
  return .braced (← members.foldlM (fun entries (path, key, v) => assign path key v entries) [])

end ClassLowering.Toml
