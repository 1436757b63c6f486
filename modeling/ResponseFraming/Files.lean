import ResponseFraming.Text.Utf8

/-!
# Files

`Files` says what reading a path gives.  A `FileTree` is such a view of given files: a path is
followed part by part, from the root or from where the tree starts.
-/

namespace ResponseFraming

inductive ReadFault
  | missing
  | directory
  /-- A part of the path is a file and not a directory. -/
  | notDirectory
  | nameTooLong
  | notText
  | other (message : String)
deriving DecidableEq, Repr

def ReadFault.message : ReadFault → String
  | missing => "No such file or directory (os error 2)"
  | directory => "Is a directory (os error 21)"
  | notDirectory => "Not a directory (os error 20)"
  | nameTooLong => "File name too long (os error 36)"
  | notText => "stream did not contain valid UTF-8"
  | other message => message

/-- What reading a path gives. -/
abbrev Files := String → Except ReadFault Bytes

def Files.text (files : Files) (path : String) : Except ReadFault String := do
  match Utf8.decode? (← files path) with
  | some text => return text
  | none => .error .notText

/-- Files and directories by the names on the way to them from the root, and the directory from
which relative paths start. -/
structure FileTree where
  files : List (List String × Bytes)
  directories : List (List String)
  start : List String
deriving DecidableEq, Repr

namespace FileTree

/-- The tree with one more file, whose name counts from the start. -/
def insert (t : FileTree) (name : String) (content : Bytes) : FileTree :=
  let parts := (name.splitOn "/").filter fun part => part ≠ "" ∧ part ≠ "."
  { t with files := t.files ++ [(t.start ++ parts, content)] }

def file? (t : FileTree) (place : List String) : Option Bytes :=
  (t.files.find? (·.1 = place)).map (·.2)

/-- Whether a place is a directory: the root, one that is given, or a part of the way to one or
to a file. -/
def isDirectory (t : FileTree) (place : List String) : Bool :=
  place = [] ∨ t.directories.any (place.isPrefixOf ·) ∨
    t.files.any fun file => place.isPrefixOf file.1 ∧ place ≠ file.1

/-- Where the parts of a path lead from a place.  Every part starts from a directory, also one
that stays there or goes back; the root's parent is the root. -/
def walk (t : FileTree) (place : List String) : List String → Except ReadFault (List String)
  | [] => .ok place
  | part :: rest =>
    if (t.file? place).isSome then .error .notDirectory
    else if !t.isDirectory place then .error .missing
    else if part = "" ∨ part = "." then t.walk place rest
    else if part = ".." then t.walk place.dropLast rest
    else t.walk (place ++ [part]) rest

/-- Reads a path.  An empty one names nothing, and one of 4096 bytes or more is too
long. -/
def read (t : FileTree) : Files := fun path => do
  if path = "" then .error .missing
  if 4096 ≤ path.utf8ByteSize then .error .nameTooLong
  let place ← t.walk (if path.startsWith "/" then [] else t.start) (path.splitOn "/")
  match t.file? place with
  | some content => return content
  | none => .error (if t.isDirectory place then .directory else .missing)

end FileTree

end ResponseFraming
