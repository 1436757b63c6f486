import ResponseFraming.Demux.Session

/-!
# Response parts

A response as three parts: its body, a receiver for the head and a receiver for the trailers.  The
body is a demultiplexer whose callbacks send their value to a receiver.  The send fails when the
receiver has been dropped, and the callback succeeds at once all the same; a callback that is
released closes its receiver.
-/

namespace ResponseFraming

/-- The receiving end of a channel for one value. -/
inductive Receiver (α : Type)
  /-- A value may still come. -/
  | waiting
  | holding (value : α)
  /-- The value was taken, or none will come. -/
  | closed
deriving DecidableEq, Repr

inductive Reception (α : Type)
  | empty
  | value (a : α)
  | closed
deriving DecidableEq, Repr

namespace Receiver

variable {α : Type}

def send (r : Receiver α) (value : α) : Receiver α :=
  match r with
  | waiting => holding value
  | r => r

/-- Sends to a receiver that may have been dropped: then the value comes back. -/
def offer (r : Option (Receiver α)) (value : α) : Except α (Receiver α) :=
  match r with
  | some r => .ok (r.send value)
  | none => .error value

/-- The sender is gone; a value already sent stays. -/
def close : Receiver α → Receiver α
  | waiting => closed
  | r => r

def take : Receiver α → Reception α × Receiver α
  | waiting => (.empty, waiting)
  | holding value => (.value value, closed)
  | closed => (.closed, closed)

end Receiver

/-- Body and receivers of one response; each is `none` once it has been dropped. -/
structure Parts where
  body : Option Demux
  head : Option (Receiver Head)
  trailers : Option (Receiver (Option Trailers))
deriving DecidableEq, Repr

namespace Parts

/-- How a callback goes on after its send: at once and well, whether or not somebody listens. -/
def reply (_sent : Bool) : Callback := .immediate

def new (source : Transport) (policy : Policy) : Parts :=
  ⟨some (Demux.new source (reply true) (reply true) policy), some .waiting, some .waiting⟩

/-- The body with the callbacks as they would go now: each send that is still to come succeeds if
its receiver is there. -/
def armed (p : Parts) : Option Demux :=
  p.body.map fun d => { d with
    onHead := d.onHead.map fun _ => reply p.head.isSome
    onTrailers := d.onTrailers.map fun _ => reply p.trailers.isSome }

/-- What an event of the body does to the receivers. -/
def deliver (p : Parts) : Event → Parts
  | .headCalled head => { p with head := (Receiver.offer p.head head).toOption }
  | .headReleased => { p with head := p.head.map (·.close) }
  | .trailersCalled trailers =>
    { p with trailers := (Receiver.offer p.trailers trailers).toOption }
  | .trailersReleased => { p with trailers := p.trailers.map (·.close) }
  | _ => p

def deliverAll (p : Parts) (events : List Event) : Parts := events.foldl deliver p

inductive Operation
  | body (operation : Demux.Operation)
  | takeHead
  | takeTrailers
  | dropHead
  | dropTrailers
deriving DecidableEq, Repr

inductive Result
  | body (result : Demux.Result)
  | head (reception : Reception Head)
  | trailers (reception : Reception (Option Trailers))
  | dropped
  /-- The receiver had been dropped. -/
  | gone
deriving DecidableEq, Repr

structure Reaction where
  parts : Parts
  events : List Event
  result : Result
deriving DecidableEq, Repr

def perform (p : Parts) : Operation → Reaction
  | .body operation =>
    let r := Demux.perform? p.armed operation
    ⟨{ p with body := r.demux }.deliverAll r.events, r.events, .body r.result⟩
  | .takeHead =>
    match p.head with
    | some r => ⟨{ p with head := some r.take.2 }, [], .head r.take.1⟩
    | none => ⟨p, [], .gone⟩
  | .takeTrailers =>
    match p.trailers with
    | some r => ⟨{ p with trailers := some r.take.2 }, [], .trailers r.take.1⟩
    | none => ⟨p, [], .gone⟩
  | .dropHead => ⟨{ p with head := none }, [], .dropped⟩
  | .dropTrailers => ⟨{ p with trailers := none }, [], .dropped⟩

def session (p : Parts) : List Operation → List Reaction
  | [] => []
  | operation :: rest => p.perform operation :: session (p.perform operation).parts rest

end Parts

end ResponseFraming
