import HttpContext.Channel.Source
/-!
Uploaded files and where their content lies: in memory, in a file of the spool directory, or
nowhere any more. An `Upload` is a handle; the spool keeps the one content that all handles of an
upload share and counts them. A file goes when its upload is destroyed or its last handle dropped.

Three things are relied on of temporary files: one that was made and written to its end holds just
that until it is removed; removing one that is there succeeds; and one that could be made but not
written to its end is removed with the attempt, so that a refused upload leaves nothing behind.
-/
namespace HttpContext

/-- A file that was submitted under a field name. -/
structure Upload where
  id : Nat
  name : String
  fileName : String
  contentType : Option String
  size : Nat
  deriving Repr, DecidableEq

inductive Spool.Storage
  | memory (content : Bytes)
  | disk (content : Bytes)
  /-- somebody else removed the file -/
  | missing
  | destroyed
  deriving Repr, DecidableEq

structure Spool.Cell where
  storage : Spool.Storage
  handles : Nat := 1
  deriving Repr, DecidableEq

/-- The fault, if any, that keeps the n-th upload from being stored in a file, be it in making the
file, in writing it or in flushing it. -/
abbrev Directory := Nat → Option Fault

/-- Without the directory no file can be made. -/
def Directory.missing : Directory := fun _ => some (.system .notFound)

/-- Every file can be made and written. -/
def Directory.IsSound (directory : Directory) : Prop := ∀ n, directory n = none

/-- The uploads made so far, and the directory for the files among them. -/
structure Spool where
  directory : Directory := fun _ => none
  cells : List Spool.Cell := []

namespace Spool

/-- Content of at most `threshold` bytes stays in memory, longer content goes to a file. -/
def Storage.ofContent (threshold : Nat) (content : Bytes) : Storage :=
  if content.length ≤ threshold then .memory content else .disk content

/-- Why the content of a new upload cannot be stored, if it cannot. -/
def refusal? (s : Spool) (content : Bytes) (threshold : Nat) : Option Fault :=
  if content.length ≤ threshold then none else s.directory s.cells.length

/-- Stores the content of a new upload. -/
def add (s : Spool) (name fileName : String) (contentType : Option String) (content : Bytes)
    (threshold : Nat) : Except Fault Upload × Spool :=
  match s.refusal? content threshold with
  | some fault => (.error fault, s)
  | none => (.ok ⟨s.cells.length, name, fileName, contentType, content.length⟩,
      { s with cells := s.cells ++ [{ storage := .ofContent threshold content }] })

def storage (s : Spool) (u : Upload) : Storage :=
  match s.cells[u.id]? with
  | some cell => cell.storage
  | none => .destroyed

def setStorage (s : Spool) (u : Upload) (storage : Storage) : Spool :=
  { s with cells := s.cells.modify u.id fun cell => { cell with storage } }

def clone (s : Spool) (u : Upload) : Spool :=
  { s with cells := s.cells.modify u.id fun cell => { cell with handles := cell.handles + 1 } }

/-- One handle less; with the last one the content goes. -/
def drop (s : Spool) (u : Upload) : Spool :=
  { s with cells := s.cells.modify u.id fun cell =>
      if cell.handles ≤ 1 then ⟨.destroyed, 0⟩ else { cell with handles := cell.handles - 1 } }

def dropAll (s : Spool) (uploads : List Upload) : Spool :=
  uploads.foldl drop s

/-- The upload has a file, be it still there or not. -/
def isOnDisk (s : Spool) (u : Upload) : Bool :=
  match s.storage u with
  | .disk _ | .missing => true
  | _ => false

def isDestroyed (s : Spool) (u : Upload) : Bool :=
  s.storage u = .destroyed

def bytes (s : Spool) (u : Upload) : Except Fault Bytes :=
  match s.storage u with
  | .memory content | .disk content => .ok content
  | .missing => .error (.system .notFound)
  | .destroyed => .error .uploadDestroyed

/-- The content as a stream; a file is opened at once and read later. -/
def stream (s : Spool) (u : Upload) : Except Fault Source :=
  match s.storage u with
  | .memory content | .disk content => .ok (.ofBytes content)
  | .missing => .error (.system .notFound)
  | .destroyed => .error .uploadDestroyed

/-- Releases the content for all handles; this fails once when the file is gone already. -/
def destroy (s : Spool) (u : Upload) : Except Fault Unit × Spool :=
  -- the upload counts as destroyed even then
  let result := match s.storage u with
    | .missing => .error (.system .notFound)
    | _ => .ok ()
  (result, s.setStorage u .destroyed)

/-- Somebody else deletes the file; `none` without a file, `false` when it is gone already. -/
def removeFile (s : Spool) (u : Upload) : Option Bool × Spool :=
  match s.storage u with
  | .disk _ => (some true, s.setStorage u .missing)
  | .missing => (some false, s)
  | _ => (none, s)

def Cell.hasFile (cell : Cell) : Bool :=
  match cell.storage with
  | .disk _ => true
  | _ => false

def fileCount (s : Spool) : Nat := s.cells.countP Cell.hasFile

end Spool

end HttpContext
