/-
File trees held in memory: contents under slash-separated relative paths, always
listed in byte order of the paths. A path is normalised on its way in and on every
look-up, so `a//b` and `./a/b` name one file.
-/
import Bindery.Bytes.Utf8
import Bindery.SlashPath
import Bindery.Table

namespace Bindery

/-- The contents of a set of files, by normalised path. -/
structure FileTree where
  files : Table Bytes := []
  deriving DecidableEq, Repr

namespace FileTree

/-- Cleaned, relative, and empty for the tree's own place. -/
def normalize (p : Bytes) : Bytes :=
  let p := (SlashPath.clean p).dropStart [SlashPath.slash]
  if p = [SlashPath.dot] then [] else p

def empty : FileTree := {}

/-- Puts a file into the tree; a file at the same path gives way. -/
def insert (t : FileTree) (p data : Bytes) : FileTree := ⟨t.files.insert (normalize p) data⟩

/-- Puts every file of `sub` under the directory `dir`. -/
def insertUnder (t : FileTree) (dir : Bytes) (sub : FileTree) : FileTree :=
  sub.files.foldl (fun t f => t.insert (SlashPath.join [dir, f.1]) f.2) t

/-- The contents at a path. -/
def get? (t : FileTree) (p : Bytes) : Option Bytes := t.files.find? (normalize p)

/-- The paths, ascending. -/
def paths (t : FileTree) : List Bytes := t.files.keys

/-- The tree of a list of files, later ones winning. -/
def ofList (fs : List (Bytes × Bytes)) : FileTree :=
  fs.foldl (fun t f => t.insert f.1 f.2) empty

/-- Text verbatim, and any other contents as their size. -/
def summary (data : Bytes) : Bytes :=
  if Utf8.valid data then data
  else utf8 "<binary " ++ Bytes.decimal data.length ++ utf8 " bytes>"

end FileTree

end Bindery
