import ResponseFraming.Chunk
import ResponseFraming.StreamError

/-!
# Transports and callbacks

Both are given as scripts.  A transport is the list of the answers to its polls, one answer for
each poll; after the last it has ended.  A callback, once called, is pending for some polls and
then succeeds or fails.
-/

namespace ResponseFraming

inductive Signal
  | chunk (c : Chunk)
  | failed (e : StreamError)
  | pending
  | ended
deriving DecidableEq, Repr

abbrev Transport := List Signal

def Transport.poll : Transport → Signal × Transport
  | [] => (.ended, [])
  | s :: rest => (s, rest)

/-- What a callback will do: answer `delay` polls with pending, then end in `failure` or succeed. -/
structure Callback where
  delay : Nat
  failure : Option StreamError
deriving DecidableEq, Repr

namespace Callback

inductive Reply
  | pending
  | done
  | failed (e : StreamError)
deriving DecidableEq, Repr

def poll : Callback → Reply × Callback
  | ⟨delay + 1, failure⟩ => (.pending, ⟨delay, failure⟩)
  | ⟨0, none⟩ => (.done, ⟨0, none⟩)
  | ⟨0, some e⟩ => (.failed e, ⟨0, some e⟩)

def immediate : Callback := ⟨0, none⟩

end Callback

end ResponseFraming
