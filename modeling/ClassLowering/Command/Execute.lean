import ClassLowering.Command.Arguments
import ClassLowering.Lowering

/-!
# Carrying out a call

The outcome of a call is an exit code and the text on the output: code 2 for misused arguments,
code 1 for a failure, and code 0 otherwise. Nothing is printed before a call has succeeded.
-/

set_option autoImplicit false

namespace ClassLowering

inductive Failure where
  | usage
  | noMainClass
  | fault (f : Fault)

namespace Failure

def exitCode : Failure → Nat
  | usage => 2
  | noMainClass | fault _ => 1

def message : Failure → String
  | usage => "usage: COMMAND BUNDLE [-c FILE] [-o DIR] [--stdout] [--class NAME]"
  | noMainClass => "no main class: pass --class or set `[entry] main_class`"
  | fault f => f.message

end Failure

def Tree.display (t : Tree) : String := t.toJson.pretty 0 ++ "\n"

namespace Invocation

variable {m : Type → Type} [Monad m] [Storage m]

def load (call : Invocation) : ExceptT Fault m Lowering := do
  let settings ← match call.config with
    | some path => Settings.load path
    | none => pure {}
  let settings := match call.out with
    | some dir => { settings with output := { settings.output with dir } }
    | none => settings
  return { bundle := ← Bundle.load call.bundle, settings }

def report (path : String) : String := "Wrote " ++ path ++ "\n"

/-- Prints a text, or writes its file and reports the path. -/
def produce (call : Invocation) (text : Except Fault String) (write : ExceptT Fault m String) :
    ExceptT Fault m String := do
  if call.print then ExceptT.mk (pure text) else return report (← write)

def execute (call : Invocation) : ExceptT Failure m String := do
  let t ← ExceptT.adapt Failure.fault call.load
  match call.command with
  | .entryPoint =>
    match call.mainClass <|> t.settings.entry.mainClass with
    | some name =>
      ExceptT.adapt Failure.fault (call.produce (t.entryText name) (t.writeEntry name))
    | none => throw .noMainClass
  | .headerTree => ExceptT.adapt Failure.fault do
    return (← ExceptT.mk (pure t.headerTree)).display
  | .header => ExceptT.adapt Failure.fault (call.produce t.headerText t.writeHeader)
  | .loweredTrees => return Text.concat (t.bundle.lowered.map Tree.display)
  | .implementation =>
    ExceptT.adapt Failure.fault (call.produce t.implementationText t.writeImplementation)
  | .run => ExceptT.adapt Failure.fault do
    return Text.concat ((← t.run).map report)

end Invocation

structure Outcome where
  exitCode : Nat
  output : String
  complaint : Option String := none

def execute {m : Type → Type} [Monad m] [Storage m] (args : List String) : m Outcome := do
  let result ← match Invocation.parse? args with
    | some call => call.execute.run
    | none => pure (.error .usage)
  match result with
  | .ok output => return { exitCode := 0, output }
  | .error failure =>
    return { exitCode := failure.exitCode, output := "", complaint := failure.message }

end ClassLowering
