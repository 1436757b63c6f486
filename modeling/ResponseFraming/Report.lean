import ResponseFraming.Json
import ResponseFraming.Recording
import ResponseFraming.Policy

/-!
# Reports

What a consumer has seen of a response, as a value, as lines of text and as JSON.
-/

namespace ResponseFraming

structure Report where
  policy : Policy
  chunksSeen : Nat
  status : Option UInt16
  headers : Pairs
  /-- How many payloads there were. -/
  payloads : Nat
  body : String
  trailers : Option Pairs
  /-- Whether the end of the response was seen. -/
  completed : Bool
  error : Option String
deriving DecidableEq, Repr

namespace Report

/-! ## Text -/

def fieldLines (pairs : Pairs) : String :=
  String.join (pairs.map fun (name, value) => "  " ++ name ++ ": " ++ value ++ "\n")

def policyLine (p : Policy) : String :=
  "policy:   truncation=" ++ p.truncation.label ++ " late_head=" ++ p.lateHead.label ++ "\n"

def headLine (status : Option UInt16) : String :=
  "head:     " ++ (status.map fun s => toString s.toNat).getD "(none)" ++ "\n"

/-- The body's length is that of its UTF-8 text. -/
def bodyLines (r : Report) : String :=
  "body:     " ++ toString r.body.utf8ByteSize ++ " bytes in " ++ toString r.payloads ++
    " payload(s) from " ++ toString r.chunksSeen ++ " chunk(s)\n" ++
    (if r.body = "" then "" else "  " ++ r.body ++ "\n")

def trailerLines (r : Report) : String :=
  match r.trailers, r.completed with
  | some pairs, _ => "trailers:\n" ++ fieldLines pairs
  | none, true => "trailers: (none)\n"
  | none, false => "trailers: (not received)\n"

def errorLine (error : Option String) : String :=
  (error.map fun e => "error:    " ++ e ++ "\n").getD ""

def text (r : Report) : String :=
  policyLine r.policy ++ headLine r.status ++ fieldLines r.headers ++ r.bodyLines ++
    r.trailerLines ++ errorLine r.error

/-! ## JSON -/

def policyJson (p : Policy) : Json :=
  .object [("truncation", .string p.truncation.name), ("late_head", .string p.lateHead.name)]

def pairsJson (pairs : Pairs) : Json :=
  .array (pairs.map fun (name, value) => .array [.string name, .string value])

def toJson (r : Report) : Json :=
  .object [("config", policyJson r.policy), ("chunks_seen", .number r.chunksSeen),
    ("status", Json.nullable (fun s => .number s.toNat) r.status),
    ("headers", pairsJson r.headers), ("payloads", .number r.payloads),
    ("body", .string r.body), ("trailers", Json.nullable pairsJson r.trailers),
    ("completed", .boolean r.completed), ("error", Json.nullable .string r.error)]

end Report

end ResponseFraming
