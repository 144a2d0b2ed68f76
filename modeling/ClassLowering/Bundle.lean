import ClassLowering.Hierarchy.ClassMap

/-!
# Bundles

A bundle is everything that is known of a program before it is lowered: its packages and classes,
its source units, and those units with method bodies already lowered for the target.
-/

set_option autoImplicit false

namespace ClassLowering

structure Bundle where
  packages : List String := []
  classes : List ClassDecl := []
  units : List Tree := []
  lowered : List Tree := []
  deriving DecidableEq

def Bundle.hierarchy (b : Bundle) : Hierarchy := .ofClasses b.classes b.packages

end ClassLowering
