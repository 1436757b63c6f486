import ResponseFraming.Transport

/-!
# Events of a demultiplexer

Everything that a demultiplexer does, in one order: its polls of the transport and of the
callbacks, its calls and releases of the callbacks, its log entries, and its answers.
-/

namespace ResponseFraming

inductive Item
  | payload (bytes : Bytes)
  | error (e : StreamError)
deriving DecidableEq, Repr

inductive Answer
  | pending
  | item (i : Item)
  | finished
deriving DecidableEq, Repr

/-! ## Log -/

inductive LogEntry
  | pulled (index : Nat) (shape : Shape)
  | callingHead
  | noHead
  | lateHeadIgnored (index : Nat)
  | metadataSkipped (index : Nat)
  | yielding (length : Nat)
  | callingTrailers (present : Bool)
  | complete (chunks : Nat)
  | headCallbackFailed
  | trailersCallbackFailed
  | transportFailed (chunks : Nat)
  | endedIncomplete (chunks : Nat)
  | endedEmpty
  | truncationRejected (chunks : Nat)
deriving DecidableEq, Repr

inductive LogValue
  | number (n : Nat)
  | flag (b : Bool)
  | text (s : String)
deriving DecidableEq, Repr

inductive LogLevel
  | trace
  | debug
  | warn
deriving DecidableEq, Repr

def LogLevel.name : LogLevel → String
  | trace => "trace"
  | debug => "debug"
  | warn => "warn"

namespace LogEntry

def level : LogEntry → LogLevel
  | pulled .. | yielding .. => .trace
  | lateHeadIgnored .. | endedIncomplete .. | truncationRejected .. => .warn
  | _ => .debug

def message : LogEntry → String
  | pulled .. => "pulled chunk"
  | callingHead => "dispatching response head"
  | noHead => "first chunk carried no response head"
  | lateHeadIgnored .. => "ignoring response head on a non-first chunk"
  | metadataSkipped .. => "skipping metadata-only chunk"
  | yielding .. => "yielding payload"
  | callingTrailers .. => "dispatching trailers"
  | complete .. => "response complete"
  | headCallbackFailed => "head callback failed"
  | trailersCallbackFailed => "trailer callback failed"
  | transportFailed .. => "transport error"
  | endedIncomplete .. => "transport ended without a terminal chunk"
  | endedEmpty => "transport ended before the first chunk"
  | truncationRejected .. => "rejecting truncated response"

def fields : LogEntry → List (String × LogValue)
  | pulled index shape => [("index", .number index), ("shape", .text shape.text)]
  | lateHeadIgnored index | metadataSkipped index => [("index", .number index)]
  | yielding length => [("len", .number length)]
  | callingTrailers present => [("has_trailers", .flag present)]
  | complete chunks | transportFailed chunks | endedIncomplete chunks
  | truncationRejected chunks => [("chunks", .number chunks)]
  | callingHead | noHead | headCallbackFailed | trailersCallbackFailed | endedEmpty => []

end LogEntry

/-! ## Events -/

inductive Event
  | transportPolled (answer : Signal)
  /-- The head callback was called. -/
  | headCalled (head : Head)
  /-- The head callback, called before, was polled. -/
  | headPolled (answer : Callback.Reply)
  /-- The head callback was let go without a call. -/
  | headReleased
  | trailersCalled (trailers : Option Trailers)
  | trailersPolled (answer : Callback.Reply)
  | trailersReleased
  | log (entry : LogEntry)
  /-- A poll of the demultiplexer ended with this answer. -/
  | answered (answer : Answer)
deriving DecidableEq, Repr

namespace Event

def isTransportPoll : Event → Bool
  | transportPolled _ => true
  | _ => false

end Event

def transportPolls (events : List Event) : Nat := events.countP Event.isTransportPoll

end ResponseFraming
