import ResponseFraming.Parts
import ResponseFraming.Report

/-!
# Replay

A replay sends recorded chunks through a demultiplexer and reports what a consumer sees who takes
the body up to its end or first error and then looks at head and trailers.
-/

namespace ResponseFraming

def Reception.value? {α : Type} : Reception α → Option α
  | .value a => some a
  | _ => none

/-- What can be taken from a receiver, if it has not been dropped. -/
def Receiver.value? {α : Type} (r : Option (Receiver α)) : Option α :=
  r.bind fun r => r.take.1.value?

def replay (chunks : List Chunk) (policy : Policy) : Report :=
  let source := chunks.map Signal.chunk
  let body := (Demux.new source .immediate .immediate policy).gather
  let parts := (Parts.new source policy).deliverAll body.events
  let head := Receiver.value? parts.head
  let trailers := Receiver.value? parts.trailers
  { policy
    chunksSeen := body.demux.pulled
    status := head.map (·.status)
    headers := (head.map (·.fields.toPairs)).getD []
    payloads := body.value.1.length
    body := Utf8.decodeLossy body.value.1.flatten
    trailers := trailers.bind fun t => t.map (·.fields.toPairs)
    completed := trailers.isSome
    error := body.value.2.map (·.message) }

end ResponseFraming
