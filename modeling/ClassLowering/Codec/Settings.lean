import ClassLowering.Fault
import ClassLowering.Settings
import ClassLowering.Toml.Reader

/-!
# Settings in TOML

Each group of settings is a table. A group may also be written as the array of its values in their
order, of which those at the end may be left out, and a date in its place says nothing about it.
Every setting that is given is a string; what the settings do not know is passed over.
-/

set_option autoImplicit false

namespace ClassLowering

namespace Toml

def record? (names : List String) : Toml → Option Entries
  | table _ entries => some entries
  | braced entries => some entries
  | array items => some (names.zip items)
  | tables items => some (names.zip (items.map (table .header)))
  | datetime _ => some []
  | _ => none

def text? : Toml → Option String
  | string s => some s
  | _ => none

def textD (key default : String) (entries : Entries) : Option String :=
  match entries.lookup key with
  | some v => v.text?
  | none => some default

end Toml

open Toml (Entries textD)

namespace OutputSettings

def names : List String := ["dir", "header", "implementation", "entry_point"]

def ofEntries? (entries : Entries) : Option OutputSettings := do
  let defaults : OutputSettings := {}
  let dir ← textD "dir" defaults.dir entries
  let header ← textD "header" defaults.header entries
  let implementation ← textD "implementation" defaults.implementation entries
  let entryPoint ← textD "entry_point" defaults.entryPoint entries
  return { dir, header, implementation, entryPoint }

end OutputSettings

namespace RuntimeSettings

def names : List String := ["header", "namespace", "array_template", "array_type", "literal"]

def ofEntries? (entries : Entries) : Option RuntimeSettings := do
  let defaults : RuntimeSettings := {}
  let header ← textD "header" defaults.header entries
  let base ← textD "namespace" defaults.base entries
  let arrayTemplate ← textD "array_template" defaults.arrayTemplate entries
  let arrayType ← textD "array_type" defaults.arrayType entries
  let literal ← textD "literal" defaults.literal entries
  return { header, base, arrayTemplate, arrayType, literal }

end RuntimeSettings

namespace EntrySettings

def names : List String := ["main_class"]

def ofEntries? (entries : Entries) : Option EntrySettings :=
  match entries.lookup "main_class" with
  | some v => do return { mainClass := ← v.text? }
  | none => some {}

end EntrySettings

namespace Settings

def group? {α : Type} (key : String) (names : List String) (ofEntries? : Entries → Option α)
    (document : Entries) : Option α := do
  match document.lookup key with
  | some v => ofEntries? (← v.record? names)
  | none => ofEntries? []

def ofEntries? (document : Entries) : Option Settings := do
  let output ← group? "output" OutputSettings.names OutputSettings.ofEntries? document
  let runtime ← group? "runtime" RuntimeSettings.names RuntimeSettings.ofEntries? document
  let entry ← group? "entry" EntrySettings.names EntrySettings.ofEntries? document
  return { output, runtime, entry }

def read (text : String) : Except Fault Settings :=
  match (Toml.parse? text).bind ofEntries? with
  | some s => .ok s
  | none => .error .badSettings

end Settings

end ClassLowering
