/-!
# Where files are kept

Programs that read and write files are written for any monad with `Storage`. A write replaces the
whole file or changes nothing, and says which. A `FileSystem` is a value with the same operations,
and a program can be run on it as on a state.
-/

set_option autoImplicit false

namespace ClassLowering

class Storage (m : Type → Type) where
  read : String → m (Option String)
  /-- Replaces a file by a text; `false` if that is not possible, and then nothing changes. -/
  write : String → String → m Bool

class FileSystem (σ : Type) where
  read? : σ → String → Option String
  write? : σ → String → String → Option σ

instance {σ : Type} [FileSystem σ] : Storage (StateM σ) where
  read path := do return FileSystem.read? (← get) path
  write path text := do
    match FileSystem.write? (← get) path text with
    | some files =>
      set files
      return true
    | none => return false

end ClassLowering
