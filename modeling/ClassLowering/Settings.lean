import ClassLowering.Files.Path

/-!
# Settings

Where the generated files go, which names of the target library the generated text uses, and which
class holds the entry point. Every setting has a default.
-/

set_option autoImplicit false

namespace ClassLowering

structure OutputSettings where
  /-- The directory of the generated files, which has to exist. -/
  dir : String := "output"
  header : String := "output.h"
  implementation : String := "output.cpp"
  entryPoint : String := "main.cpp"
  deriving DecidableEq, Repr

structure RuntimeSettings where
  header : String := "java_lang.h"
  base : String := "java::lang"
  /-- The array template that `new` allocates. -/
  arrayTemplate : String := "__rt::__Array"
  /-- The array type used in declarations. -/
  arrayType : String := "__rt::Array"
  literal : String := "__rt::literal"
  deriving DecidableEq, Repr

structure EntrySettings where
  mainClass : Option String := none
  deriving DecidableEq, Repr

structure Settings where
  output : OutputSettings := {}
  runtime : RuntimeSettings := {}
  entry : EntrySettings := {}
  deriving DecidableEq, Repr

namespace Settings

def headerPath (s : Settings) : String := joinPath s.output.dir s.output.header

def implementationPath (s : Settings) : String := joinPath s.output.dir s.output.implementation

def entryPointPath (s : Settings) : String := joinPath s.output.dir s.output.entryPoint

end Settings

end ClassLowering
