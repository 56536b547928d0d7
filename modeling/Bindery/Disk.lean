/-
A disk as far as the program looks at it: directories and files by path. A path is walked
segment by segment from the root or from the working directory, and every place on the
way has to be a directory, so `a/../b` leads nowhere when there is no `a`.
-/
import Bindery.Report
import Bindery.SlashPath
import Bindery.Table

namespace Bindery

/-- What stands at a place of a disk. -/
inductive DiskEntry where
  | directory
  | file (data : Bytes)
  deriving DecidableEq, Repr

/-- Directories and files by clean path. The root, the working directory and the
directories it lies in are there without an entry. -/
structure Disk where
  entries : Table DiskEntry := []
  deriving DecidableEq, Repr

namespace Disk

/-- Why an operation on a path fails. -/
inductive Trouble where
  /-- nothing stands at the path -/
  | missing
  /-- the path cannot be used: it leads through a file, it names the wrong sort of entry,
  or no disk can hold it -/
  | unusable
  deriving DecidableEq, Repr

/-- A place that is a directory without an entry. -/
def isGiven (place : Bytes) : Bool :=
  place == [SlashPath.slash] || place == [SlashPath.dot]
    || (Bytes.split SlashPath.slash place).all (· == [SlashPath.dot, SlashPath.dot])

/-- What stands at a place, which is a clean path. -/
def at? (d : Disk) (place : Bytes) : Option DiskEntry :=
  if isGiven place then some .directory else d.entries.find? place

/-- The most octets a name may have. -/
def maxName : Nat := 255

/-- The most octets a path may have. -/
def maxPath : Nat := 4095

/-- Where a path starts. -/
def start (p : Bytes) : Bytes := if SlashPath.isRooted p then [SlashPath.slash] else [SlashPath.dot]

/-- Refuses a path that no disk can hold; the empty path names nothing. -/
def checkPath (p : Bytes) : Except Trouble Unit :=
  if p.isEmpty then .error .missing
  else if p.contains 0 || maxPath < p.length then .error .unusable
  else .ok ()

/-- Goes one segment on from a place, which has to be a directory. -/
def step (d : Disk) (place segment : Bytes) : Except Trouble Bytes :=
  match d.at? place with
  | none => .error .missing
  | some (.file _) => .error .unusable
  | some .directory =>
    if maxName < segment.length then .error .unusable else .ok (SlashPath.join [place, segment])

/-- The place that a path leads to, whether or not something stands there. -/
def place (d : Disk) (p : Bytes) : Except Trouble Bytes := do
  checkPath p
  (Bytes.split SlashPath.slash p).foldlM d.step (start p)

/-- What stands at the end of a path. -/
def look (d : Disk) (p : Bytes) : Except Trouble DiskEntry := do
  match d.at? (← d.place p) with
  | some e => .ok e
  | none => .error .missing

/-- The contents of a file. -/
def read (d : Disk) (p : Bytes) : Except Trouble Bytes := do
  match ← d.look p with
  | .file data => .ok data
  | .directory => .error .unusable

/-- Makes a directory one segment on from a place, unless it is there. -/
def makeStep (s : Disk × Bytes) (segment : Bytes) : Except Trouble (Disk × Bytes) := do
  let place ← s.1.step s.2 segment
  match s.1.at? place with
  | none => .ok (⟨s.1.entries.insert place .directory⟩, place)
  | some .directory => .ok (s.1, place)
  | some (.file _) => .error .unusable

/-- Makes a directory and those it lies in. -/
def makeDirectory (d : Disk) (p : Bytes) : Except Trouble Disk := do
  checkPath p
  let s ← (Bytes.split SlashPath.slash p).foldlM makeStep (d, start p)
  return s.1

/-- Writes a file into a directory that is there; a file at the same path gives way. -/
def write (d : Disk) (p data : Bytes) : Except Trouble Disk := do
  let place ← d.place p
  match d.at? place with
  | some .directory => .error .unusable
  | _ => .ok ⟨d.entries.insert place (.file data)⟩

/-- Puts a directory on the disk, which stays as it is when that cannot be done. -/
def addDirectory (d : Disk) (p : Bytes) : Disk := (d.makeDirectory p).toOption.getD d

/-- Puts a file on the disk together with the directories it lies in. -/
def addFile (d : Disk) (p data : Bytes) : Disk :=
  let d := d.addDirectory (Bytes.uptoLast SlashPath.slash p)
  (d.write p data).toOption.getD d

/-- A place that does not lie under the working directory. -/
def isOutside (place : Bytes) : Bool :=
  SlashPath.isRooted place || (Bytes.split SlashPath.slash place).head? == some [SlashPath.dot, SlashPath.dot]

/-- The files that are not on the disk `old` or are not the same there. -/
def changedSince (d old : Disk) : Table Bytes :=
  d.entries.filterMap fun (p, e) =>
    match e with
    | .directory => none
    | .file data => if old.entries.find? p == some e then none else some (p, data)

/-- The changed files that lie under the working directory. -/
def writtenSince (d old : Disk) : Table Bytes := (d.changedSince old).filter (!isOutside ·.1)

end Disk

/-- Something done to a disk. When it fails, what it did before that stays done. -/
abbrev DiskAction := EStateM Report Disk

end Bindery
