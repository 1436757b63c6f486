import ResponseFraming.Chunk
import ResponseFraming.Failure

/-!
# Recordings

A recording is a TOML file with one table `chunk` for each chunk of a response.  A record has a
head if it has a status.
-/

namespace ResponseFraming

abbrev Pairs := List (String × String)

structure Record where
  status : Option UInt16 := none
  headers : Pairs := []
  payload : Option String := none
  complete : Bool := false
  trailers : Option Pairs := none
deriving DecidableEq, Repr

namespace Record

def put (key : String) (r : Record) (v : Toml.Value) : Except Toml.Misfit Record :=
  match key with
  | "status" => do return { r with status := some (← Toml.Decode.status v) }
  | "headers" => do return { r with headers := ← Toml.Decode.pairs v }
  | "payload" => do return { r with payload := some (← Toml.Decode.string v) }
  | "complete" => do return { r with complete := ← Toml.Decode.boolean v }
  | "trailers" => do return { r with trailers := some (← Toml.Decode.pairs v) }
  | _ => .ok r

/-- The first of the five elements that is missing and cannot be left out.  Headers and completion
could be left out, but in an array something stands after each of them that cannot. -/
def missingElement? (length : Nat) : Option Nat := [0, 2, 4].find? (length ≤ ·)

/-- A record is a table, or an array of five elements.  A date counts as a table without a known
key. -/
def decode : Toml.Decoder Record
  | .table _ entries => Toml.Decode.entries put {} entries
  | .datetime => .ok {}
  | .array elements | .tables elements => do
    let r ← Toml.Decode.entries put {}
      (["status", "headers", "payload", "complete", "trailers"].zip elements)
    match missingElement? elements.length with
    | some position => .error (.shortRecord position)
    | none => return r
  | v => Toml.Decode.wrongType .record v

def head (r : Record) : Except RecordFault (Option Head) :=
  match r.status with
  | some status => .ok (some ⟨status, Fields.ofPairs r.headers⟩)
  | none => if r.headers.isEmpty then .ok none else .error .fieldsWithoutStatus

def completion (r : Record) : Except RecordFault (Option Completion) :=
  if r.complete then .ok (some ⟨r.trailers.map fun ps => ⟨Fields.ofPairs ps⟩⟩)
  else if r.trailers.isSome then .error .trailersWithoutCompletion
  else .ok none

/-- The chunk of a record.  Fields without a status are noticed before trailers without a
completion. -/
def chunk (r : Record) : Except RecordFault Chunk := do
  let head ← r.head
  let completion ← r.completion
  return ⟨head, r.payload.map Utf8.encode, completion⟩

end Record

abbrev Recording := List Record

namespace Recording

def put (key : String) (rs : Recording) (v : Toml.Value) : Except Toml.Misfit Recording :=
  if key = "chunk" then Toml.Decode.list Record.decode v else .ok rs

def ofEntries (entries : Toml.Entries) : Except Toml.Misfit Recording :=
  Toml.Decode.entries put [] entries

def ofToml (text : String) (parse : Toml.Parser := Toml.parse?) : Except Failure Recording :=
  decodeToml parse ofEntries text

def ofFile (files : Files) (path : String) (parse : Toml.Parser := Toml.parse?) :
    Except Failure Recording := do
  let text ← inContext (.reading "fixture" path) (readText files path)
  inContext (.parsing "fixture" path) (ofToml text parse)

def chunksFrom (position : Nat) : Recording → Except Failure (List Chunk)
  | [] => .ok []
  | r :: rest => do
    let c ← inContext (.record position) (r.chunk.mapError fun fault => .of (.record fault))
    return c :: (← chunksFrom (position + 1) rest)

def chunks (rs : Recording) : Except Failure (List Chunk) := rs.chunksFrom 1

end Recording

end ResponseFraming
