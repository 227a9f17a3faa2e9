import UcasOs.Fs.Operations
import Mathlib.Data.Set.Card

/-!
# What the calls on names are for

The tree of all paths with the path of the current directory, and what `mkdir`,
`touch`, `rmdir` and `cd` do to it.  Nothing here knows of inodes and blocks;
that the file system does the same is proved in `Fs.PathRefinement`.
-/

namespace UcasOs.Fs

open UcasOs.Libs

inductive Kind where
  | directory
  | file
  deriving DecidableEq, Repr

/-- The names from the root on.  A name is any string, also one with a backslash in it, which no
absolute path can spell. -/
abbrev Path := List (List UInt8)

structure PathTree where
  kind : Path → Option Kind
  here : Path

namespace PathTree

def root : PathTree where
  kind path := if path = [] then some .directory else none
  here := []

def names (a : PathTree) (path : Path) : Set (List UInt8) := {s | a.kind (path ++ [s]) ≠ none}

def put (a : PathTree) (path : Path) (what : Option Kind) : PathTree :=
  { a with kind := Function.update a.kind path what }

/-- `mkdir` and `touch`. -/
noncomputable def create (what : Kind) (s : CString) (a : PathTree) : PathTree × Option Message :=
  if strlen s > maxNameLenth then (a, some .tooLongName)
  else if a.kind (a.here ++ [s.bytes]) ≠ none then (a, some .fileExists)
  else if (a.names a.here).ncard = maxDirItemNum then (a, some .tooManyEntrys)
  else (a.put (a.here ++ [s.bytes]) (some what), none)

open scoped Classical in
noncomputable def rmdir (s : CString) (a : PathTree) : PathTree × Option Message :=
  match a.kind (a.here ++ [s.bytes]) with
  | none => (a, some .noSuchDirectory)
  | some .file => (a, some .notADirectory)
  | some .directory =>
      if a.names (a.here ++ [s.bytes]) = ∅ then (a.put (a.here ++ [s.bytes]) none, none)
      else (a, some .directoryNotEmpty)

/-- Where `cd` goes: an absolute path begins with a backslash and has one between its names. -/
def goal (s : CString) (a : PathTree) : Path :=
  if s.bytes.head? = some backslash then
    if s.bytes = [backslash] then [] else s.bytes.tail.splitOn backslash
  else a.here ++ [s.bytes]

def cd (s : CString) (a : PathTree) : PathTree × Option Message :=
  if s.bytes = [dot, dot] then ({ a with here := a.here.dropLast }, none)
  else if s.bytes = [dot] then (a, none)
  else
    match a.kind (a.goal s) with
    | none => (a, some .notSuchDirectory)
    | some .file => (a, some .notADirectory)
    | some .directory => ({ a with here := a.goal s }, none)

end PathTree

end UcasOs.Fs
