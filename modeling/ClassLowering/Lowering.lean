import ClassLowering.Bundle
import ClassLowering.Codec.Class
import ClassLowering.Codec.Settings
import ClassLowering.Files.Storage
import ClassLowering.Layout.Unit
import ClassLowering.Printing.Render

/-!
# From a bundle to files

A bundle and settings determine three files: the header, the implementation and the entry point.
Each has a tree and a text. `Lowering.run` builds all trees before it writes the first file, and
renders each tree when it is the turn of its file.
-/

set_option autoImplicit false

namespace ClassLowering

structure Lowering where
  bundle : Bundle := {}
  settings : Settings := {}

namespace Lowering

def hierarchy (t : Lowering) : Hierarchy := t.bundle.hierarchy

/-! ## Trees and texts -/

def headerTree (t : Lowering) : Except Fault Tree := t.hierarchy.headerUnit

def implementationTree (t : Lowering) : Except Fault Tree :=
  t.hierarchy.implementationUnit t.bundle.lowered

def entryTree (t : Lowering) (mainClass : String) : Except Fault Tree :=
  t.hierarchy.entryUnit mainClass

def headerText (t : Lowering) : Except Fault String := do
  render t.settings .header (← t.headerTree)

def implementationText (t : Lowering) : Except Fault String := do
  render t.settings .implementation (← t.implementationTree)

def entryText (t : Lowering) (mainClass : String) : Except Fault String := do
  render t.settings .entryPoint (← t.entryTree mainClass)

/-! ## Files -/

section Files

variable {m : Type → Type} [Monad m] [Storage m]

/-- Replaces a file by a text, or fails and changes nothing. -/
def writeFile (path text : String) : ExceptT Fault m Unit := do
  let done ← (Storage.write path text : m Bool)
  if !done then throw (.outputUnavailable path)

def writeTree (settings : Settings) (artifact : Artifact) (root : Tree) (path : String) :
    ExceptT Fault m String := do
  let text ← ExceptT.mk (pure (render settings artifact root))
  writeFile path text
  return path

def writeHeader (t : Lowering) : ExceptT Fault m String := do
  let tree ← ExceptT.mk (pure t.headerTree)
  writeTree t.settings .header tree t.settings.headerPath

def writeImplementation (t : Lowering) : ExceptT Fault m String := do
  let tree ← ExceptT.mk (pure t.implementationTree)
  writeTree t.settings .implementation tree t.settings.implementationPath

def writeEntry (t : Lowering) (mainClass : String) : ExceptT Fault m String := do
  let tree ← ExceptT.mk (pure (t.entryTree mainClass))
  writeTree t.settings .entryPoint tree t.settings.entryPointPath

structure Job where
  artifact : Artifact
  tree : Tree
  path : String

/-- The files of a lowering. There is an entry point only if a main class is set. -/
def jobs (t : Lowering) : Except Fault (List Job) := do
  let s := t.settings
  let header ← t.headerTree
  let implementation ← t.implementationTree
  let entry ← match s.entry.mainClass with
    | some mainClass => do pure [⟨.entryPoint, ← t.entryTree mainClass, s.entryPointPath⟩]
    | none => pure []
  return ⟨.header, header, s.headerPath⟩ :: ⟨.implementation, implementation, s.implementationPath⟩
    :: entry

def run (t : Lowering) : ExceptT Fault m (List String) := do
  let jobs ← ExceptT.mk (pure t.jobs)
  jobs.mapM fun job => writeTree t.settings job.artifact job.tree job.path

end Files

end Lowering

section Loading

variable {m : Type → Type} [Monad m] [Storage m]

def readInput (path : String) : ExceptT Fault m String := do
  match ← (Storage.read path : m (Option String)) with
  | some text => return text
  | none => throw .unreadableInput

def Settings.load (path : String) : ExceptT Fault m Settings := do
  ExceptT.mk (pure (Settings.read (← readInput path)))

def Bundle.load (path : String) : ExceptT Fault m Bundle := do
  ExceptT.mk (pure (Bundle.read (← readInput path)))

end Loading

end ClassLowering
