import Unwinder.Module

/-!
# `Unwinder.FileTree` — a directory of files held in memory

Paths are followed the way an operating system follows them: step by step from the working directory, through
directories only, every step but the last. So `..` goes up from the directory that was reached, and only
through a directory that is there.

## Contents
- **Trees.** `FileTree`, the files and directories below a working directory.
- **Following a path.** `FileTree.next` is one step, `FileTree.follow` a whole path, and `FileTree.read` gives
  the contents of the file it leads to.
- **Changes.** `FileTree.write` and `FileTree.erase` change what a path leads to; writing makes the
  directories that are missing on the way.
-/

namespace Unwinder

/-! ## Trees -/

/-- The names that lead from the root to a place. -/
abbrev Place := List String

/-- Files with their contents, and directories. -/
structure FileTree where
  files : List (Place × Bytes)
  directories : List Place

namespace FileTree

/-- The working directory, which no path from the root leads to. -/
def working : Place := [""]

/-- The tree with an empty working directory. -/
def empty : FileTree := ⟨[], [working, []]⟩

/-- What is at a place. -/
inductive Node where
  | file (contents : Bytes)
  | directory

/-- What is at a place, if anything. -/
def node? (tree : FileTree) (place : Place) : Option Node :=
  match tree.files.lookup place with
  | some contents => some (.file contents)
  | none => if place ∈ tree.directories then some .directory else none

/-! ## Following a path -/

/-- The longest name of a file, in bytes. -/
def maxName : Nat := 255

/-- The longest path, in bytes. -/
def maxPath : Nat := 4095

/-- The place one step leads to from a place, whether or not anything is there. Only a directory can be left. -/
def next (tree : FileTree) (place : Place) (name : List Char) : Except Errno Place :=
  match tree.node? place with
  | none => .error .noEntry
  | some (.file _) => .error .notDirectory
  | some .directory =>
      if name = [] ∨ name = ['.'] then .ok place
      else if name = ['.', '.'] then .ok place.dropLast
      else
        let name := String.ofList name
        if maxName < name.utf8ByteSize then .error .nameTooLong else .ok (place ++ [name])

/-- Takes the steps of a path from a place, each to something that is there. -/
def steps (tree : FileTree) (place : Place) : List (List Char) → Except Errno Place
  | [] => .ok place
  | name :: names => do
      let there ← tree.next place name
      if (tree.node? there).isSome then tree.steps there names else .error .noEntry

/-- The place a path starts from: the root after a leading slash, else the working directory. A path that is
empty, too long or has a terminator in it leads nowhere. -/
def start (path : Path) : Except IoFault Place :=
  let chars := path.text.toList
  if Char.ofNat 0 ∈ chars then .error .terminatorInPath
  else if path.isEmpty then .error (.errno .noEntry)
  else if maxPath < path.text.utf8ByteSize then .error (.errno .nameTooLong)
  else .ok (if chars.head? = some '/' then [] else working)

/-- The place a path leads to. -/
def follow (tree : FileTree) (path : Path) : Except IoFault Place := do
  (tree.steps (← start path) (Path.segments path.text.toList)).mapError .errno

/-- The contents of the file a path leads to. -/
def read (tree : FileTree) (path : Path) : Except IoFault Bytes := do
  let place ← tree.follow path
  match tree.node? place with
  | some (.file contents) => return contents
  | some .directory => throw (.errno .isDirectory)
  | none => throw (.errno .noEntry)

/-- The tree as a file system. -/
def fileSystem (tree : FileTree) : FileSystem := ⟨tree.read⟩

/-! ## Changes -/

/-- The tree with a directory at a place where there was nothing. -/
def addDirectory (tree : FileTree) (place : Place) : FileTree :=
  if (tree.node? place).isSome then tree else { tree with directories := place :: tree.directories }

/-- The tree with a directory wherever the steps of a path need one, as far as the steps can be taken. -/
def makeWay (tree : FileTree) (place : Place) : List (List Char) → FileTree
  | [] => tree
  | name :: names =>
      match tree.next place name with
      | .error _ => tree
      | .ok there => (tree.addDirectory there).makeWay there names

/-- The tree with a file at a place, unless a directory is there. -/
def addFile (tree : FileTree) (place : Place) (contents : Bytes) : FileTree :=
  if place ∈ tree.directories then tree
  else { tree with files := (place, contents) :: tree.files.filter (·.1 ≠ place) }

/-- The tree with a file at the place a path leads to, and with the directories on the way to it. A path that
cannot be followed leaves no file. -/
def write (tree : FileTree) (path : Path) (contents : Bytes) : FileTree :=
  match start path with
  | .error _ => tree
  | .ok place =>
      let names := Path.segments path.text.toList
      let tree := tree.makeWay place names.dropLast
      match tree.steps place names.dropLast >>= (tree.next · (names.getLastD [])) with
      | .error _ => tree
      | .ok there => tree.addFile there contents

/-- The tree without the file a path leads to. -/
def erase (tree : FileTree) (path : Path) : FileTree :=
  match tree.follow path with
  | .error _ => tree
  | .ok place => { tree with files := tree.files.filter (·.1 ≠ place) }

end FileTree

end Unwinder
