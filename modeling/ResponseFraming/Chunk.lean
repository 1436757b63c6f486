import ResponseFraming.Message
import ResponseFraming.Text.Utf8

/-!
# Chunks

A chunk is one unit that the transport delivers.  Head, payload and completion are independent of
each other, and trailers come with a completion only.  `Chunk.facets` splits a chunk into the head
and the `Body`, which are all that is acted upon; `Shape` says for diagnostics what is there.  An
empty payload is kept in the chunk and is no payload in either view.
-/

namespace ResponseFraming

/-- The mark of the last chunk, with the trailers that it carries. -/
structure Completion where
  trailers : Option Trailers
deriving DecidableEq, Repr

/-- A chunk without its head; the payload is not empty. -/
structure Body where
  payload : Option Bytes
  completion : Option Completion
deriving DecidableEq, Repr

/-- Whether nothing is there to act upon. -/
def Body.isMetadata (b : Body) : Bool := b.payload.isNone && b.completion.isNone

structure Shape where
  head : Bool
  payload : Bool
  complete : Bool
  trailers : Bool
deriving DecidableEq, Repr

namespace Shape

def parts (s : Shape) : List String :=
  (if s.head then ["head"] else []) ++ (if s.payload then ["payload"] else []) ++
    (if s.complete then ["complete"] else []) ++ (if s.trailers then ["trailers"] else [])

def text (s : Shape) : String := if s.parts = [] then "empty" else "+".intercalate s.parts

end Shape

/-- A chunk as the transport sent it; `data` may be present and empty. -/
structure Chunk where
  head : Option Head
  data : Option Bytes
  completion : Option Completion
deriving DecidableEq, Repr

namespace Chunk

def empty : Chunk := ⟨none, none, none⟩

def withHead (c : Chunk) (h : Head) : Chunk := { c with head := some h }

def withPayload (c : Chunk) (bytes : Bytes) : Chunk := { c with data := some bytes }

def complete (c : Chunk) (trailers : Option Trailers) : Chunk :=
  { c with completion := some ⟨trailers⟩ }

def ofHead (h : Head) : Chunk := empty.withHead h

def ofPayload (bytes : Bytes) : Chunk := empty.withPayload bytes

def last (trailers : Option Trailers) : Chunk := empty.complete trailers

def hasHead (c : Chunk) : Bool := c.head.isSome

def payload? (c : Chunk) : Option Bytes :=
  match c.data with
  | some (b :: rest) => some (b :: rest)
  | _ => none

def isComplete (c : Chunk) : Bool := c.completion.isSome

def trailers? (c : Chunk) : Option Trailers := c.completion.bind (·.trailers)

def shape (c : Chunk) : Shape :=
  ⟨c.hasHead, c.payload?.isSome, c.isComplete, c.trailers?.isSome⟩

/-- The head on one side, payload and completion on the other. -/
def facets (c : Chunk) : Option Head × Body :=
  (c.head, ⟨c.data.filter (fun bytes => !bytes.isEmpty), c.completion⟩)

end Chunk

end ResponseFraming
