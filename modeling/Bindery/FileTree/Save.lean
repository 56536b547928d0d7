/-
Writing a file tree to a disk. Files are written in the order of their paths; the first
that cannot be written ends the work and is named in the report, and the files before it
stay.
-/
import Bindery.Disk
import Bindery.FileTree

namespace Bindery.FileTree

/-- Puts a change to the disk into effect, or fails with a report of what was to be done at
a path. -/
def attempt (path action : Bytes) (change : Disk → Except Disk.Trouble Disk) : DiskAction Unit := do
  match change (← get) with
  | .ok d => set d
  | .error _ => throw (.write path action (some .external))

/-- Writes one file below `root`, with the directories it lies in. -/
def saveFile (root p data : Bytes) : DiskAction Unit := do
  let full := SlashPath.join [root, p]
  let dir := SlashPath.dir full
  attempt dir (utf8 "create directory") (·.makeDirectory dir)
  attempt full (utf8 "write file") (·.write full data)

/-- Writes every file below `root`. -/
def save (t : FileTree) (root : Bytes) : DiskAction Unit :=
  t.files.forM fun f => saveFile root f.1 f.2

end Bindery.FileTree
