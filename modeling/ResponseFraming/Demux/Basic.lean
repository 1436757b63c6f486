import ResponseFraming.Demux.Event
import ResponseFraming.Policy

/-!
# The demultiplexer

A `Demux` turns the chunks of one response into a stream of payloads.  The head callback is called
with the head of the first chunk before any payload, and the trailer callback with the trailers
of the first complete chunk before that chunk's payload.

`step` is the smallest thing that a demultiplexer does: it polls either the transport or the
callback in flight, once.  A poll is a run of steps up to one that answers.
-/

namespace ResponseFraming

/-- What a demultiplexer waits for. -/
inductive Phase
  /-- The first chunk. -/
  | opening
  /-- The head callback; the rest of the first chunk is held back. -/
  | announcing (callback : Callback) (body : Body)
  /-- A chunk after the first. -/
  | streaming
  /-- The trailer callback; the payload of the last chunk is held back. -/
  | closing (callback : Callback) (payload : Option Bytes)
  /-- Nothing any more. -/
  | finished
deriving DecidableEq, Repr

/-- A demultiplexer.  A callback that has been called or released is no longer there. -/
structure Demux where
  source : Transport
  onHead : Option Callback
  onTrailers : Option Callback
  policy : Policy
  phase : Phase
  /-- How many chunks the transport has delivered. -/
  pulled : Nat
deriving DecidableEq, Repr

structure Outcome (α : Type) where
  demux : Demux
  events : List Event
  value : α
deriving DecidableEq, Repr

namespace Outcome

def after {α : Type} (o : Outcome α) (earlier : List Event) : Outcome α :=
  { o with events := earlier ++ o.events }

def map {α β : Type} (f : α → β) (o : Outcome α) : Outcome β := ⟨o.demux, o.events, f o.value⟩

end Outcome

/-- The outcome of a step: an answer, or none while the poll goes on. -/
abbrev Step := Outcome (Option Answer)

namespace Demux

def new (source : Transport) (onHead onTrailers : Callback) (policy : Policy) : Demux :=
  ⟨source, some onHead, some onTrailers, policy, .opening, 0⟩

def isFinished (d : Demux) : Bool := d.phase = .finished

/-- The same demultiplexer under another policy, which holds from the next poll on. -/
def configure (d : Demux) (policy : Policy) : Demux := { d with policy }

/-- The releases that are due when the demultiplexer ends: of each callback still there. -/
def releases (d : Demux) : List Event :=
  (if d.onHead.isSome then [.headReleased] else []) ++
    (if d.onTrailers.isSome then [.trailersReleased] else [])

def finish (d : Demux) : Demux :=
  { d with phase := .finished, onHead := none, onTrailers := none }

def finishWith (d : Demux) (answer : Option Answer) : Step := ⟨d.finish, d.releases, answer⟩

def fail (d : Demux) (e : StreamError) : Step := d.finishWith (some (.item (.error e)))

/-- Acts on the body of a chunk: a complete one calls the trailer callback and holds back the
payload, any other gives its payload.  Without a trailer callback the payload is given at once. -/
def advance (d : Demux) (body : Body) : Step :=
  match body.completion, d.onTrailers with
  | some completion, some callback =>
    ⟨{ d with onTrailers := none, phase := .closing callback body.payload },
      [.log (.callingTrailers completion.trailers.isSome), .trailersCalled completion.trailers],
      none⟩
  | some _, none => d.finishWith (body.payload.map fun bytes => .item (.payload bytes))
  | none, _ =>
    ⟨{ d with phase := .streaming },
      (body.payload.map fun bytes => Event.log (.yielding bytes.length)).toList,
      body.payload.map fun bytes => .item (.payload bytes)⟩

def awaitTrailers (d : Demux) (callback : Callback) (payload : Option Bytes) : Step :=
  let (reply, callback) := callback.poll
  let step : Step :=
    match reply with
    | .pending => ⟨{ d with phase := .closing callback payload }, [], some .pending⟩
    | .failed e => (d.fail e).after [.log .trailersCallbackFailed]
    | .done =>
      (d.finishWith (some (payload.elim .finished fun bytes => .item (.payload bytes)))).after
        [.log (.complete d.pulled)]
  step.after [.trailersPolled reply]

/-- The transport has ended before a complete chunk: the policy decides whether that is an
error. -/
def endOfTransport (d : Demux) : Step :=
  match d.policy.truncation with
  | .lenient =>
    let entry := if d.pulled = 0 then .endedEmpty else .endedIncomplete d.pulled
    ⟨d.finish, d.releases ++ [.log entry], some .finished⟩
  | .strict =>
    ⟨d.finish, d.releases ++ [.log (.truncationRejected d.pulled)],
      some (.item (.error (.framing (.truncated d.pulled))))⟩

/-! What acts on the body of a chunk is a parameter; a demultiplexer's `step` does so by
`advance`. -/

section StepBy

variable (act : Demux → Body → Step)

/-- Acts on the body of a chunk whose head is dealt with. -/
def acceptBy (d : Demux) (body : Body) : Step :=
  (act d body).after (if body.isMetadata then [.log (.metadataSkipped d.pulled)] else [])

/-- The first chunk: its head goes to the head callback, and without a head that is released. -/
def receiveFirstBy (d : Demux) (head : Option Head) (body : Body) : Step :=
  match d.onHead, head with
  | some callback, some h =>
    ⟨{ d with onHead := none, phase := .announcing callback body },
      [.log .callingHead, .headCalled h], none⟩
  | some _, none =>
    (acceptBy act { d with onHead := none } body).after [.log .noHead, .headReleased]
  | none, _ => acceptBy act d body

def receiveLaterBy (d : Demux) (head : Option Head) (body : Body) : Step :=
  match head, d.policy.lateHead with
  | some _, .reject => d.fail (.framing (.lateHead d.pulled))
  | some _, .ignore => (acceptBy act d body).after [.log (.lateHeadIgnored d.pulled)]
  | none, _ => acceptBy act d body

def receiveBy (d : Demux) (c : Chunk) : Step :=
  let d := { d with pulled := d.pulled + 1 }
  let step :=
    if d.phase = .opening then receiveFirstBy act d c.facets.1 c.facets.2
    else receiveLaterBy act d c.facets.1 c.facets.2
  step.after [.log (.pulled d.pulled c.shape)]

def pullBy (d : Demux) : Step :=
  let (signal, source) := d.source.poll
  let d := { d with source }
  let step : Step :=
    match signal with
    | .pending => ⟨d, [], some .pending⟩
    | .failed e => (d.fail e).after [.log (.transportFailed d.pulled)]
    | .ended => d.endOfTransport
    | .chunk c => receiveBy act d c
  step.after [.transportPolled signal]

def awaitHeadBy (d : Demux) (callback : Callback) (body : Body) : Step :=
  let (reply, callback) := callback.poll
  let step : Step :=
    match reply with
    | .pending => ⟨{ d with phase := .announcing callback body }, [], some .pending⟩
    | .failed e => (d.fail e).after [.log .headCallbackFailed]
    | .done => act d body
  step.after [.headPolled reply]

def stepBy (d : Demux) : Step :=
  match d.phase with
  | .opening | .streaming => pullBy act d
  | .announcing callback body => awaitHeadBy act d callback body
  | .closing callback payload => d.awaitTrailers callback payload
  | .finished => ⟨d, [], some .finished⟩

end StepBy

def step (d : Demux) : Step := stepBy advance d

end Demux

end ResponseFraming
