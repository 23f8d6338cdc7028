import HttpContext.Form.Spool
/-!
The handles of one upload. Each is made from another one and can be used until it is dropped; they
share the one content that the spool has for the upload.
-/
namespace HttpContext

/-- An upload in its spool, with those of its handles that have not been dropped. -/
structure Sharing where
  spool : Spool
  upload : Upload
  alive : List Nat := [0]
  /-- the handles that there have been; the next one gets this number -/
  made : Nat := 1

namespace Sharing

/-- What can be done through a handle, or to the file behind the back of them all. -/
inductive Use
  | clone (handle : Nat)
  | drop (handle : Nat)
  | bytes (handle : Nat)
  | stream (handle : Nat)
  | destroy (handle : Nat)
  /-- somebody else deletes the file -/
  | removeFile
  deriving Repr, DecidableEq

namespace Use

def handle? : Use → Option Nat
  | clone handle | drop handle | bytes handle | stream handle | destroy handle => some handle
  | removeFile => none

def isDestroy : Use → Bool
  | destroy _ => true
  | _ => false

end Use

/-- What a use gives. -/
inductive Answer
  | cloned (handle : Nat)
  | dropped
  | bytes (result : Except Fault Bytes)
  | stream (result : Except Fault Source)
  | destroyed (result : Except Fault Unit)
  | removed (result : Option Bool)

/-- A use through a handle that is alive. -/
def use (s : Sharing) : Use → Answer × Sharing
  | .clone _ =>
    (.cloned s.made, { s with
      spool := s.spool.clone s.upload, alive := s.alive ++ [s.made], made := s.made + 1 })
  | .drop handle =>
    (.dropped, { s with spool := s.spool.drop s.upload, alive := s.alive.erase handle })
  | .bytes _ => (.bytes (s.spool.bytes s.upload), s)
  | .stream _ => (.stream (s.spool.stream s.upload), s)
  | .destroy _ =>
    let (result, spool) := s.spool.destroy s.upload
    (.destroyed result, { s with spool })
  | .removeFile =>
    let (result, spool) := s.spool.removeFile s.upload
    (.removed result, { s with spool })

/-- Nothing is used through a handle that has been dropped or that never was. -/
def use? (s : Sharing) (use : Use) : Option (Answer × Sharing) :=
  if ∀ handle ∈ use.handle?, handle ∈ s.alive then some (s.use use) else none

/-- One use after the other, while each of them is possible. -/
def run? (s : Sharing) : List Use → Option (List Answer × Sharing)
  | [] => some ([], s)
  | use :: rest => do
    let (answer, s) ← s.use? use
    let (answers, s) ← s.run? rest
    return (answer :: answers, s)

end Sharing

end HttpContext
