/-
The program. It puts the files that the command line leads to on a disk of its own, runs
the command there, and writes what changed to the disk below it.
-/
import Bindery.Browser
import Bindery.CommandLine

namespace Bindery

/-- Octets as text, empty when they are none. -/
def shown (s : Bytes) : String := (String.fromUTF8? (ByteArray.mk s.toArray)).getD ""

/-- Puts what stands at a path on a disk. -/
def fetch (d : Disk) (p : Bytes) : IO Disk := do
  match ← (IO.FS.readBinFile (shown p)).toBaseIO with
  | .ok data => return d.addFile p data.toList
  | .error (.noFileOrDirectory ..) => return d
  | .error _ => return d.addDirectory p

/-- The variables that are set. -/
def setVariables : IO (List (Bytes × Bytes)) := do
  ["out_dir", "verbose", "format", "wasi_version"].filterMapM fun setting => do
    let v := Settings.variableName setting
    return (← IO.getEnv (shown v)).map fun s => (v, utf8 s)

/-- Writes a file with the directories it lies in. -/
def store (f : Bytes × Bytes) : IO Unit := do
  IO.FS.createDirAll (shown (SlashPath.dir f.1))
  IO.FS.writeBinFile (shown f.1) (ByteArray.mk f.2.toArray)

/-- Writes octets to standard output as they are. -/
def emitBytes (s : Bytes) : IO Unit := do
  let out ← IO.getStdout
  out.write (ByteArray.mk s.toArray)
  out.flush

/-- Shows the browser and hands it one line after the other as a key. -/
partial def browseLoop (b : Browser) : IO Unit := do
  emitBytes b.view.line
  let line ← (← IO.getStdin).getLine
  if line.isEmpty then return
  let (b, quit) := b.press (.ofText (String.ofList (line.toList.filter (· != '\n'))))
  if quit then return else browseLoop b

/-- Says why a command failed. -/
def complain (r : Report) : IO Unit := do
  IO.eprintln (if r.outer = .foreign then "the command line cannot be understood" else shown r.render)

end Bindery

open Bindery in
def main (args : List String) : IO UInt32 := do
  let words := args.map utf8
  let first ← (CommandLine.wanted {} words).foldlM fetch {}
  let before ← (CommandLine.wanted first words).foldlM fetch first
  match CommandLine.run (← setVariables) words before with
  | .ok (.output text) after =>
    (after.changedSince before).forM store
    emitBytes text
    return 0
  | .ok (.browse p) _ =>
    browseLoop (.start p)
    return 0
  | .error r after =>
    (after.changedSince before).forM store
    complain r
    return 1
