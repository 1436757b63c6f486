/-!
# Errors of a response stream

A stream fails because its transport or a callback failed, or because the framing breaks a rule
that the policy in force insists on.
-/

namespace ResponseFraming

/-- A breach of the framing rules. -/
inductive Violation
  /-- The transport ended after so many chunks, none of them complete. -/
  | truncated (chunks : Nat)
  /-- The chunk at this position, not the first, carried a head. -/
  | lateHead (index : Nat)
deriving DecidableEq, Repr

def Violation.message : Violation → String
  | .truncated chunks =>
    "response stream ended after " ++ toString chunks ++ " chunk(s) without a terminal chunk"
  | .lateHead index =>
    "response head received on chunk " ++ toString index ++
      "; a head is only valid on the first chunk"

inductive StreamError
  | transport (message : String)
  | callback (message : String)
  | framing (violation : Violation)
deriving DecidableEq, Repr

namespace StreamError

def message : StreamError → String
  | transport m => "transport error: " ++ m
  | callback m => "callback error: " ++ m
  | framing v => v.message

def isFraming : StreamError → Bool
  | framing _ => true
  | _ => false

end StreamError

end ResponseFraming
