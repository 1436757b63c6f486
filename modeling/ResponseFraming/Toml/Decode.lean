import ResponseFraming.Text.Quoted
import ResponseFraming.Toml.Value

/-!
# Decoding TOML values

A decoder turns a value into what a key wants, or says how the value does not fit.  Of several
misfits in a document the first in document order is reported.
-/

namespace ResponseFraming.Toml

/-- What a value is, as far as a misfit tells. -/
inductive Found
  | string (s : String)
  | integer (n : Int)
  | float (x : Binary64)
  | boolean (b : Bool)
  | sequence
  | map
deriving DecidableEq, Repr

/-- Dates and times count as maps. -/
def Found.of : Value → Found
  | .string s => string s
  | .integer n => integer n
  | .float x => float x
  | .boolean b => boolean b
  | .array _ | .tables _ => sequence
  | .datetime | .table .. => map

inductive Wanted
  | status
  | string
  | boolean
  | sequence
  | pair
  | record
  | policy
deriving DecidableEq, Repr

inductive Misfit
  | wrongType (found : Found) (wanted : Wanted)
  /-- An integer that is no status. -/
  | outOfRange (n : Int)
  /-- A pair of fewer than two elements. -/
  | shortPair (length : Nat)
  /-- A record written as an array lacks the element at this position. -/
  | shortRecord (position : Nat)
  /-- A word that is neither of the two that may stand there. -/
  | unknownWord (word first second : String)
  | noWord
  /-- A table in the place of a word has no entry, or more than one. -/
  | notOneEntry (isEmpty : Bool)
  /-- The value of that entry is neither a table nor an array. -/
  | entryNotTable (kind : String)
  | entryNotEmpty
  /-- The value of that entry is made of repeated tables. -/
  | entryTables
deriving DecidableEq, Repr

def Found.text : Found → String
  | string s => "string " ++ Quoted.quote s
  | integer n => "integer \x60" ++ toString n ++ "\x60"
  | float x => "floating point \x60" ++ x.text ++ "\x60"
  | boolean b => "boolean \x60" ++ (if b then "true" else "false") ++ "\x60"
  | sequence => "sequence"
  | map => "map"

def Wanted.text : Wanted → String
  | status => "u16"
  | string => "a string"
  | boolean => "a boolean"
  | sequence => "a sequence"
  | pair => "a tuple of size 2"
  | record => "struct ChunkRecord"
  | policy => "struct DemuxConfig"

def Misfit.message : Misfit → String
  | wrongType found wanted => "invalid type: " ++ found.text ++ ", expected " ++ wanted.text
  | outOfRange n =>
    "invalid value: " ++ (Found.integer n).text ++ ", expected " ++ Wanted.status.text
  | shortPair length =>
    "invalid length " ++ toString length ++ ", expected " ++ Wanted.pair.text
  | shortRecord position =>
    "invalid length " ++ toString position ++ ", expected " ++ Wanted.record.text ++
      " with 5 elements"
  | unknownWord word first second =>
    "unknown variant \x60" ++ word ++ "\x60, expected \x60" ++ first ++ "\x60 or \x60" ++
      second ++ "\x60"
  | noWord => "wanted string or table"
  | notOneEntry true => "wanted exactly 1 element, found 0 elements"
  | notOneEntry false => "wanted exactly 1 element, more than 1 element"
  | entryNotTable kind => "expected table, found " ++ kind
  | entryNotEmpty => "expected empty table"
  | entryTables => "expected empty array"

/-! ## Decoders -/

abbrev Decoder (α : Type) := Value → Except Misfit α

namespace Decode

variable {α : Type}

def wrongType (wanted : Wanted) : Decoder α := fun v => .error (.wrongType (.of v) wanted)

def status : Decoder UInt16
  | .integer n =>
    if 0 ≤ n ∧ n < 65536 then .ok (UInt16.ofNat n.toNat) else .error (.outOfRange n)
  | v => wrongType .status v

def string : Decoder String
  | .string s => .ok s
  | v => wrongType .string v

def boolean : Decoder Bool
  | .boolean b => .ok b
  | v => wrongType .boolean v

def list (element : Decoder α) : Decoder (List α)
  | .array elements | .tables elements => elements.mapM element
  | v => wrongType .sequence v

def pair : Decoder (String × String)
  | .array elements | .tables elements =>
    match elements with
    | [] => .error (.shortPair 0)
    | [name] => do
      let _ ← string name
      .error (.shortPair 1)
    | name :: value :: _ => do return (← string name, ← string value)
  | v => wrongType .pair v

def pairs : Decoder (List (String × String)) := list pair

/-- One of two words.  A table may stand for a word: its one key is the word, and its value is a
table or an array without elements. -/
def word (first second : String × α) : Decoder α
  | .string s => choose s
  | .table _ [] => .error (.notOneEntry true)
  | .table _ [(key, value)] => do
    let a ← choose key
    match value with
    | .table _ [] | .array [] => return a
    | .table _ (_ :: _) | .array (_ :: _) => .error .entryNotEmpty
    | .tables _ => .error .entryTables
    | v => .error (.entryNotTable v.kind)
  | .table _ (_ :: _ :: _) => .error (.notOneEntry false)
  | _ => .error .noWord
where
  choose (s : String) : Except Misfit α :=
    if s = first.1 then .ok first.2
    else if s = second.1 then .ok second.2
    else .error (.unknownWord s first.1 second.1)

/-- A record with the value of each known key put in, in document order. -/
def entries (put : String → α → Value → Except Misfit α) (blank : α) (es : Entries) :
    Except Misfit α :=
  es.foldlM (fun r entry => put entry.1 r entry.2) blank

end Decode

end ResponseFraming.Toml
