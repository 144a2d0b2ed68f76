import ClassLowering.Command.Execute
import ClassLowering.Files.Path

/-!
# The program

Runs a call on the files of the system. A file is prepared beside its target first and then put in
its place, so the target is never left half written.
-/

set_option autoImplicit false

namespace ClassLowering

def readSystemFile (path : String) : IO (Option String) := do
  try return some (← IO.FS.readFile path) catch _ => return none

def randomMark : IO String := do
  let n ← IO.rand 0 999999
  let digits := toString n
  return Text.replicate (6 - digits.length) "0" ++ digits

/-- Writes a new file, and removes it again if that fails halfway. -/
def writeDraft (draft text : String) : IO Bool := do
  let handle ← IO.FS.Handle.mk draft .writeNew
  try
    handle.putStr text
    handle.flush
    return true
  catch _ =>
    IO.FS.removeFile draft
    return false

def placeDraft (draft path : String) : IO Bool := do
  try
    IO.FS.rename draft path
    return true
  catch _ =>
    IO.FS.removeFile draft
    return false

def writeSystemFile (path text : String) : IO Bool := do
  try
    let home ← IO.currentDir
    let draft := PathText.draftPath home.toString path (← randomMark)
    if ← writeDraft draft text then placeDraft draft path else return false
  catch _ => return false

instance : Storage IO := ⟨readSystemFile, writeSystemFile⟩

end ClassLowering

def main (args : List String) : IO UInt32 := do
  let outcome ← ClassLowering.execute args
  IO.print outcome.output
  if let some complaint := outcome.complaint then
    IO.eprintln complaint
  return outcome.exitCode.toUInt32
