/-! # Files

What loading a document asks of the files around it, and a tree of files in memory
that can answer.

- `FileFault`: why a file cannot be read.
- `FileAccess`: the questions.
- `FileTree`: files and directories by their places, and `FileTree.access`.
-/

namespace GuardedQuery

inductive FileFault where
  | notFound
  | notDirectory
  | isDirectory
  | nameTooLong
  | notText
  | other (wording : String)
deriving Repr, DecidableEq

def FileFault.message : FileFault → String
  | notFound => "No such file or directory (os error 2)"
  | notDirectory => "Not a directory (os error 20)"
  | isDirectory => "Is a directory (os error 21)"
  | nameTooLong => "File name too long (os error 36)"
  | notText => "stream did not contain valid UTF-8"
  | other wording => wording

structure FileAccess (m : Type → Type) where
  isDirectory : String → m Bool
  names : String → m (Except FileFault (List String))
  text : String → m (Except FileFault String)
  input : m (Except FileFault String)

def textOfBytes (bytes : ByteArray) : Except FileFault String :=
  match String.fromUTF8? bytes with
  | some text => .ok text
  | none => .error .notText

structure FileTree where
  directories : List (List String) := []
  files : List (List String × ByteArray) := []
  start : List String := []

namespace FileTree

def isIdle (name : String) : Bool :=
  name.isEmpty || name == "."

def addDirectory (tree : FileTree) (place : List String) : FileTree :=
  let places := (List.range place.length).map fun n => place.take (n + 1)
  { tree with directories := tree.directories ++ places.filter (· ∉ tree.directories) }

def placeOf (tree : FileTree) (path : String) : List String :=
  let names := (path.splitOn "/").filter (!isIdle ·)
  if path.startsWith "/" then names else tree.start ++ names

/-- Adds what a path names: a directory if it ends in a slash, otherwise a file with the
given bytes. -/
def add (tree : FileTree) (path : String) (bytes : ByteArray) : FileTree :=
  let place := tree.placeOf path
  if path.endsWith "/" then tree.addDirectory place
  else
    let tree := tree.addDirectory place.dropLast
    { tree with files := tree.files.filter (·.1 ≠ place) ++ [(place, bytes)] }

def startingIn (name : String) : FileTree :=
  { directories := [[name]], start := [name] }

def bytes? (tree : FileTree) (place : List String) : Option ByteArray :=
  (tree.files.find? (·.1 == place)).map (·.2)

def longestName : Nat := 255

def longestPath : Nat := 4095

def follow (tree : FileTree) (place : List String) : List String → Except FileFault (List String)
  | [] => .ok place
  | name :: names =>
    if (tree.bytes? place).isSome then .error .notDirectory
    else if isIdle name then tree.follow place names
    else if name = ".." then tree.follow place.dropLast names
    else if longestName < name.utf8ByteSize then .error .nameTooLong
    else
      let next := place ++ [name]
      if next ∈ tree.directories ∨ (tree.bytes? next).isSome then tree.follow next names
      else .error .notFound

def resolve (tree : FileTree) (path : String) : Except FileFault (List String) :=
  if longestPath < path.utf8ByteSize then .error .nameTooLong
  else if path.isEmpty then .error .notFound
  else tree.follow (if path.startsWith "/" then [] else tree.start) (path.splitOn "/")

def isDirectory (tree : FileTree) (path : String) : Bool :=
  match tree.resolve path with
  | .ok place => (tree.bytes? place).isNone
  | .error _ => false

def names (tree : FileTree) (path : String) : Except FileFault (List String) := do
  let place ← tree.resolve path
  if (tree.bytes? place).isSome then throw .notDirectory
  let places := tree.directories ++ tree.files.map (·.1)
  return places.filterMap fun inner => if inner.dropLast = place then inner.getLast? else none

def text (tree : FileTree) (path : String) : Except FileFault String := do
  match tree.bytes? (← tree.resolve path) with
  | some bytes => textOfBytes bytes
  | none => throw .isDirectory

def access (tree : FileTree) : FileAccess (StateM String) where
  isDirectory path := pure (tree.isDirectory path)
  names path := pure (tree.names path)
  text path := pure (tree.text path)
  input := fun unread => (.ok unread, "")

end FileTree

end GuardedQuery
