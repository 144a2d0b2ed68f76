/-!
# What can go wrong

Every operation of the library that can fail fails with a `Fault`: a broken class hierarchy, a tree
whose slots do not hold what its kind asks for, a class that does not exist, or a file that cannot
be read, understood or written. A fault names its cause; its wording is in `Fault.message`.
-/

set_option autoImplicit false

namespace ClassLowering

inductive SlotForm where
  | node
  | scalar
  deriving DecidableEq, Repr

def SlotForm.phrase : SlotForm → String
  | .node => "a node"
  | .scalar => "a scalar"

inductive Fault where
  | unresolvedParent (child parent : String)
  /-- Walking towards the root came back to `name`. -/
  | cyclicHierarchy (name : String)
  /-- A node is too short, or the slot it needs is empty. -/
  | missingSlot (label : String) (index : Nat) (what : String)
  | slotMismatch (label : String) (index : Nat) (expected : SlotForm)
  | unexpectedKind (expected found : String)
  | unknownClass (name : String)
  | outputUnavailable (path : String)
  | unreadableInput
  | badSettings
  | badBundle
  deriving DecidableEq, Repr

namespace Fault

def message : Fault → String
  | unresolvedParent child parent =>
    "class `" ++ child ++ "` extends `" ++ parent ++ "`, which is not in the class map"
  | cyclicHierarchy name => "inheritance cycle through class `" ++ name ++ "`"
  | missingSlot label index what =>
    "`" ++ label ++ "` node has no " ++ what ++ " at slot " ++ toString index
  | slotMismatch label index expected =>
    "`" ++ label ++ "` node slot " ++ toString index ++ " should hold " ++ expected.phrase
  | unexpectedKind expected found => "expected " ++ expected ++ ", found `" ++ found ++ "` node"
  | unknownClass name => "class `" ++ name ++ "` is not in the class map"
  | outputUnavailable path => "cannot write output to " ++ path
  | unreadableInput => "failed to read input"
  | badSettings => "failed to parse configuration"
  | badBundle => "failed to decode bundle"

def code : Fault → String
  | unresolvedParent .. => "vtlower::layout::unresolved_parent"
  | cyclicHierarchy .. => "vtlower::layout::cyclic_hierarchy"
  | missingSlot .. => "vtlower::ast::arity"
  | slotMismatch .. => "vtlower::ast::slot_mismatch"
  | unexpectedKind .. => "vtlower::ast::unexpected_kind"
  | unknownClass .. => "vtlower::driver::unknown_class"
  | outputUnavailable .. => "vtlower::output::unavailable"
  | unreadableInput => "vtlower::io"
  | badSettings => "vtlower::config"
  | badBundle => "vtlower::bundle"

def help : Fault → Option String
  | unresolvedParent .. =>
    some "the hierarchy builder must register every ancestor before layout synthesis"
  | missingSlot .. => some "this indicates a bug in the stage that synthesized the node"
  | unknownClass .. =>
    some "set `[entry] main_class` to a class declared in the translated sources"
  | outputUnavailable .. =>
    some "create the output directory or point `[output] dir` at a writable location"
  | _ => none

end Fault

end ClassLowering
