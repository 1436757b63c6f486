import ResponseFraming.Demux.Drive

/-!
# Sessions

A session is the use of one demultiplexer through a sequence of operations.  Collecting the body
and dropping the demultiplexer end it; after that nothing has an effect.
-/

namespace ResponseFraming.Demux

inductive Operation
  | poll
  | next
  | drain
  | collect
  | drop
  | configure (policy : Policy)
deriving DecidableEq, Repr

inductive Result
  | answer (a : Answer)
  | items (is : List Item)
  /-- The collected body, or the error that stopped its collection. -/
  | collected (i : Item)
  | dropped
  | configured (policy : Policy)
  /-- There was no demultiplexer any more. -/
  | gone
deriving DecidableEq, Repr

structure Reaction where
  demux : Option Demux
  events : List Event
  result : Result
deriving DecidableEq, Repr

/-- An operation on a demultiplexer.  One that consumes it releases the callbacks still there. -/
def perform (d : Demux) : Operation → Reaction
  | .poll => ⟨some d.poll.demux, d.poll.events, .answer d.poll.value⟩
  | .next => ⟨some d.next.demux, d.next.events, .answer d.next.value⟩
  | .drain => ⟨some d.drain.demux, d.drain.events, .items d.drain.value⟩
  | .collect =>
    ⟨none, d.collect.events ++ d.collect.demux.releases, .collected d.collect.value⟩
  | .drop => ⟨none, d.releases, .dropped⟩
  | .configure policy => ⟨some (d.configure policy), [], .configured policy⟩

/-- An operation in a session, where the demultiplexer may be gone. -/
def perform? (d : Option Demux) (operation : Operation) : Reaction :=
  match d with
  | some d => d.perform operation
  | none => ⟨none, [], .gone⟩

def session (d : Option Demux) : List Operation → List Reaction
  | [] => []
  | operation :: rest =>
    perform? d operation :: session (perform? d operation).demux rest

end ResponseFraming.Demux
