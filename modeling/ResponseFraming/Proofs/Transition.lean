import ResponseFraming.Demux.Session

/-!
# What a step can do

`Transition d s` lists the steps that a demultiplexer `d` can make, with the
demultiplexer after it, the events and the answer.  `step_transition` says that
`Demux.step` is one of them on every `Consistent` demultiplexer, that is, on one
whose callbacks and count of chunks go with its phase.  Everything that holds
along a run is proved from these cases, so that a step is taken apart only here.

* `consistent_new`, `Transition.consistent`: every reached demultiplexer is
  consistent.
* `Transition.finished_of_last`: an error or the end leaves nothing to wait for.
-/

namespace ResponseFraming

theorem Chunk.facets_payload (c : Chunk) : c.facets.2.payload = c.payload? := by
  obtain ⟨head, data, completion⟩ := c
  rcases data with _ | _ | ⟨b, rest⟩ <;> rfl

/-- An answer after which there is nothing to come. -/
def Answer.IsLast (answer : Answer) : Prop := answer = .finished ∨ ∃ e, answer = .item (.error e)

def Step.trace (s : Step) : List Event := s.events ++ (s.value.map Event.answered).toList

def giving (payload : Option Bytes) : List Event :=
  (payload.map fun bytes => Event.answered (.item (.payload bytes))).toList

theorem Step.trace_giving (d : Demux) (es : List Event) (payload : Option Bytes) :
    Step.trace ⟨d, es, payload.map fun bytes => .item (.payload bytes)⟩ = es ++ giving payload := by
  cases payload <;> rfl

namespace Demux

/-! ## Consistent demultiplexers -/

/-- The callbacks still there and the number of chunks go with the phase. -/
def Consistent (d : Demux) : Prop :=
  match d.phase with
  | .opening => d.onHead.isSome ∧ d.onTrailers.isSome ∧ d.pulled = 0
  | .announcing _ _ => d.onHead = none ∧ d.onTrailers.isSome ∧ d.pulled = 1
  | .streaming => d.onHead = none ∧ d.onTrailers.isSome ∧ 0 < d.pulled
  | .closing _ _ => d.onHead = none ∧ d.onTrailers = none ∧ 0 < d.pulled
  | .finished => d.onHead = none ∧ d.onTrailers = none

theorem consistent_new (source : Transport) (onHead onTrailers : Callback) (policy : Policy) :
    (new source onHead onTrailers policy).Consistent := ⟨rfl, rfl, rfl⟩

theorem Consistent.configure {d : Demux} (h : d.Consistent) (policy : Policy) :
    (d.configure policy).Consistent := h

/-- The transport is what the next step polls. -/
def Pulling (d : Demux) : Prop := d.phase = .opening ∨ d.phase = .streaming

theorem Consistent.onTrailers_of_pulling {d : Demux} (h : d.Consistent) (hp : d.Pulling) :
    ∃ callback, d.onTrailers = some callback := by
  apply Option.isSome_iff_exists.mp
  rcases hp with hp | hp <;> simp only [Consistent, hp] at h <;> exact h.2.1

/-! ## Chunks that keep the stream going -/

/-- The head of a chunk does not keep its body back. -/
def Passes (d : Demux) (c : Chunk) : Prop :=
  c.head = none ∨ (d.phase = .streaming ∧ d.policy.lateHead = .ignore)

/-- What is noted about the head of a chunk that passes. -/
def headNotes (d : Demux) (c : Chunk) : List Event :=
  match d.phase, c.head with
  | .opening, _ => [.log .noHead, .headReleased]
  | _, some _ => [.log (.lateHeadIgnored (d.pulled + 1))]
  | _, none => []

/-- What is noted when the body of a chunk is passed on, unless the chunk is complete. -/
def yieldNotes (payload : Option Bytes) : List Event :=
  (payload.map fun bytes => Event.log (.yielding bytes.length)).toList

/-- What is noted about a chunk without a payload that is not complete. -/
def skipNotes (d : Demux) (payload : Option Bytes) : List Event :=
  if payload.isNone then [.log (.metadataSkipped (d.pulled + 1))] else []

/-! ## The steps -/

/-- The steps of a consistent demultiplexer. -/
inductive Transition (d : Demux) : Step → Prop
  | idle (h : d.phase = .finished) : Transition d ⟨d, [], some .finished⟩
  /-- The transport has nothing yet. -/
  | stall {source : Transport} (h : d.Pulling) (hs : d.source = .pending :: source) :
      Transition d ⟨{ d with source }, [.transportPolled .pending], some .pending⟩
  | fail {source : Transport} {e : StreamError} (h : d.Pulling)
      (hs : d.source = .failed e :: source) :
      Transition d ⟨{ d with source }.finish,
        [.transportPolled (.failed e), .log (.transportFailed d.pulled)] ++ d.releases,
        some (.item (.error e))⟩
  | exhaust {source : Transport} (h : d.Pulling) (hs : d.source.poll = (.ended, source))
      (hp : d.policy.truncation = .lenient) :
      Transition d ⟨{ d with source }.finish,
        .transportPolled .ended :: (d.releases ++
          [.log (if d.pulled = 0 then .endedEmpty else .endedIncomplete d.pulled)]),
        some .finished⟩
  | truncate {source : Transport} (h : d.Pulling) (hs : d.source.poll = (.ended, source))
      (hp : d.policy.truncation = .strict) :
      Transition d ⟨{ d with source }.finish,
        .transportPolled .ended :: (d.releases ++ [.log (.truncationRejected d.pulled)]),
        some (.item (.error (.framing (.truncated d.pulled))))⟩
  | reject {source : Transport} {c : Chunk} (h : d.phase = .streaming)
      (hs : d.source = .chunk c :: source) (hh : c.hasHead) (hp : d.policy.lateHead = .reject) :
      Transition d ⟨{ d with source, pulled := d.pulled + 1 }.finish,
        [.transportPolled (.chunk c), .log (.pulled (d.pulled + 1) c.shape)] ++ d.releases,
        some (.item (.error (.framing (.lateHead (d.pulled + 1)))))⟩
  /-- The head of the first chunk goes to its callback. -/
  | announce {source : Transport} {c : Chunk} {head : Head} {callback : Callback}
      (h : d.phase = .opening) (hs : d.source = .chunk c :: source) (hh : c.head = some head)
      (hc : d.onHead = some callback) :
      Transition d
        ⟨{ d with
            source, pulled := d.pulled + 1, onHead := none
            phase := .announcing callback c.facets.2 },
        [.transportPolled (.chunk c), .log (.pulled (d.pulled + 1) c.shape), .log .callingHead,
          .headCalled head],
        none⟩
  | deliver {source : Transport} {c : Chunk} (h : d.Pulling) (hs : d.source = .chunk c :: source)
      (hh : d.Passes c) (hc : c.completion = none) :
      Transition d ⟨{ d with source, pulled := d.pulled + 1, onHead := none, phase := .streaming },
        [.transportPolled (.chunk c), .log (.pulled (d.pulled + 1) c.shape)] ++ d.headNotes c ++
          d.skipNotes c.payload? ++ yieldNotes c.payload?,
        c.payload?.map fun bytes => .item (.payload bytes)⟩
  | close {source : Transport} {c : Chunk} {completion : Completion} {callback : Callback}
      (h : d.Pulling) (hs : d.source = .chunk c :: source) (hh : d.Passes c)
      (hc : c.completion = some completion) (ht : d.onTrailers = some callback) :
      Transition d
        ⟨{ d with
            source, pulled := d.pulled + 1, onHead := none, onTrailers := none
            phase := .closing callback c.payload? },
        [.transportPolled (.chunk c), .log (.pulled (d.pulled + 1) c.shape)] ++ d.headNotes c ++
          [.log (.callingTrailers completion.trailers.isSome),
            .trailersCalled completion.trailers],
        none⟩
  | headStall {callback callback' : Callback} {body : Body}
      (h : d.phase = .announcing callback body) (hc : callback.poll = (.pending, callback')) :
      Transition d ⟨{ d with phase := .announcing callback' body }, [.headPolled .pending],
        some .pending⟩
  | headFail {callback callback' : Callback} {body : Body} {e : StreamError}
      (h : d.phase = .announcing callback body) (hc : callback.poll = (.failed e, callback')) :
      Transition d ⟨d.finish, [.headPolled (.failed e), .log .headCallbackFailed] ++ d.releases,
        some (.item (.error e))⟩
  | headDeliver {callback callback' : Callback} {body : Body}
      (h : d.phase = .announcing callback body) (hc : callback.poll = (.done, callback'))
      (hb : body.completion = none) :
      Transition d ⟨{ d with phase := .streaming }, .headPolled .done :: yieldNotes body.payload,
        body.payload.map fun bytes => .item (.payload bytes)⟩
  | headClose {callback callback' next : Callback} {body : Body} {completion : Completion}
      (h : d.phase = .announcing callback body) (hc : callback.poll = (.done, callback'))
      (hb : body.completion = some completion) (ht : d.onTrailers = some next) :
      Transition d ⟨{ d with onTrailers := none, phase := .closing next body.payload },
        [.headPolled .done, .log (.callingTrailers completion.trailers.isSome),
          .trailersCalled completion.trailers],
        none⟩
  | trailersStall {callback callback' : Callback} {payload : Option Bytes}
      (h : d.phase = .closing callback payload) (hc : callback.poll = (.pending, callback')) :
      Transition d ⟨{ d with phase := .closing callback' payload }, [.trailersPolled .pending],
        some .pending⟩
  | trailersFail {callback callback' : Callback} {payload : Option Bytes} {e : StreamError}
      (h : d.phase = .closing callback payload) (hc : callback.poll = (.failed e, callback')) :
      Transition d ⟨d.finish, [.trailersPolled (.failed e), .log .trailersCallbackFailed],
        some (.item (.error e))⟩
  | trailersDone {callback callback' : Callback} {payload : Option Bytes}
      (h : d.phase = .closing callback payload) (hc : callback.poll = (.done, callback')) :
      Transition d ⟨d.finish, [.trailersPolled .done, .log (.complete d.pulled)],
        some (payload.elim .finished fun bytes => .item (.payload bytes))⟩

variable {d : Demux}

theorem advance_of_complete {body : Body} {completion : Completion} {callback : Callback}
    (hc : body.completion = some completion) (ht : d.onTrailers = some callback) :
    d.advance body =
      ⟨{ d with onTrailers := none, phase := .closing callback body.payload },
        [.log (.callingTrailers completion.trailers.isSome), .trailersCalled completion.trailers],
        none⟩ := by
  rw [advance, hc, ht]

theorem advance_of_incomplete {body : Body} (hc : body.completion = none) :
    d.advance body =
      ⟨{ d with phase := .streaming }, yieldNotes body.payload,
        body.payload.map fun bytes => .item (.payload bytes)⟩ := by
  rw [advance, hc]
  rfl

/-- A chunk that passes is delivered, or it closes the stream. -/
theorem transition_of_passes {source : Transport} {c : Chunk} (h : d.Consistent)
    (hp : d.Pulling) (hs : d.source = .chunk c :: source) (hh : d.Passes c) :
    let counted : Demux := { d with source, pulled := d.pulled + 1, onHead := none }
    Transition d
      (((acceptBy advance counted c.facets.2).after (d.headNotes c)).after
        [.transportPolled (.chunk c), .log (.pulled (d.pulled + 1) c.shape)]) := by
  intro counted
  obtain ⟨callback, ht⟩ := h.onTrailers_of_pulling hp
  cases hc : c.completion with
  | none =>
    have hm : c.facets.2.isMetadata = c.payload?.isNone := by
      simp [Body.isMetadata, Chunk.facets_payload, show c.facets.2.completion = none from hc]
    have := Transition.deliver hp hs hh hc
    rw [acceptBy, advance_of_incomplete (show c.facets.2.completion = none from hc), hm,
      Chunk.facets_payload]
    simpa [Outcome.after, skipNotes, List.append_assoc] using this
  | some completion =>
    have hm : c.facets.2.isMetadata = false := by
      simp [Body.isMetadata, show c.facets.2.completion = some completion from hc]
    have := Transition.close hp hs hh hc ht
    have ht' : counted.onTrailers = some callback := ht
    rw [acceptBy, advance_of_complete (show c.facets.2.completion = some completion from hc) ht',
      hm, Chunk.facets_payload]
    simpa [Outcome.after, List.append_assoc] using this

theorem transition_of_opening {source : Transport} {c : Chunk} (h : d.Consistent)
    (hp : d.phase = .opening) (hs : d.source = .chunk c :: source) :
    Transition d (pullBy advance d) := by
  have hd := h
  simp only [Consistent, hp] at hd
  obtain ⟨callback, hc⟩ := Option.isSome_iff_exists.mp hd.1
  cases hh : c.head with
  | some head =>
    have := Transition.announce hp hs hh hc
    simpa [pullBy, hs, Transport.poll, receiveBy, hp, receiveFirstBy, hc, Chunk.facets, hh,
      Outcome.after] using this
  | none =>
    have := transition_of_passes h (.inl hp) hs (.inl hh)
    simpa [pullBy, hs, Transport.poll, receiveBy, hp, receiveFirstBy, hc, Chunk.facets, hh,
      headNotes, Outcome.after] using this

theorem transition_of_streaming {source : Transport} {c : Chunk} (h : d.Consistent)
    (hp : d.phase = .streaming) (hs : d.source = .chunk c :: source) :
    Transition d (pullBy advance d) := by
  have hd := h
  simp only [Consistent, hp] at hd
  cases hh : c.head with
  | none =>
    have := transition_of_passes h (.inr hp) hs (.inl hh)
    simpa [pullBy, hs, Transport.poll, receiveBy, hp, receiveLaterBy, hd.1, Chunk.facets, hh,
      headNotes, Outcome.after] using this
  | some head =>
    cases hl : d.policy.lateHead with
    | ignore =>
      have := transition_of_passes h (.inr hp) hs (.inr ⟨hp, hl⟩)
      simpa [pullBy, hs, Transport.poll, receiveBy, hp, receiveLaterBy, hl, hd.1, Chunk.facets, hh,
        headNotes, Outcome.after] using this
    | reject =>
      have := Transition.reject hp hs (by simp [Chunk.hasHead, hh]) hl
      simpa [pullBy, hs, Transport.poll, receiveBy, hp, receiveLaterBy, hl, Chunk.facets, hh, fail,
        finishWith, releases, Outcome.after] using this

theorem transition_of_pulling (h : d.Consistent) (hp : d.Pulling) :
    Transition d (pullBy advance d) := by
  have hend : ∀ source, d.source.poll = (.ended, source) → Transition d (pullBy advance d) := by
    intro source hs
    cases ht : d.policy.truncation with
    | lenient =>
      have := Transition.exhaust hp hs ht
      simpa [pullBy, hs, endOfTransport, ht, releases, Outcome.after] using this
    | strict =>
      have := Transition.truncate hp hs ht
      simpa [pullBy, hs, endOfTransport, ht, releases, Outcome.after] using this
  cases hs : d.source with
  | nil => exact hend [] (by rw [hs]; rfl)
  | cons signal source =>
    cases signal with
    | ended => exact hend source (by rw [hs]; rfl)
    | pending =>
      have := Transition.stall hp hs
      simpa [pullBy, hs, Transport.poll, Outcome.after] using this
    | failed e =>
      have := Transition.fail hp hs
      simpa [pullBy, hs, Transport.poll, Demux.fail, finishWith, releases, Outcome.after] using this
    | chunk c =>
      rcases hp with hp | hp
      · exact transition_of_opening h hp hs
      · exact transition_of_streaming h hp hs

theorem transition_of_announcing {callback : Callback} {body : Body} (h : d.Consistent)
    (hp : d.phase = .announcing callback body) :
    Transition d (awaitHeadBy advance d callback body) := by
  simp only [Consistent, hp] at h
  obtain ⟨next, ht⟩ := Option.isSome_iff_exists.mp h.2.1
  rcases hc : callback.poll with ⟨_ | _ | e, callback'⟩
  · have := Transition.headStall hp hc
    simpa [awaitHeadBy, hc, Outcome.after] using this
  · cases hb : body.completion with
    | none =>
      have := Transition.headDeliver hp hc hb
      simpa [awaitHeadBy, hc, advance_of_incomplete hb, Outcome.after] using this
    | some completion =>
      have := Transition.headClose hp hc hb ht
      simpa [awaitHeadBy, hc, advance_of_complete hb ht, Outcome.after] using this
  · have := Transition.headFail hp hc
    simpa [awaitHeadBy, hc, Demux.fail, finishWith, Outcome.after] using this

theorem transition_of_closing {callback : Callback} {payload : Option Bytes} (h : d.Consistent)
    (hp : d.phase = .closing callback payload) :
    Transition d (d.awaitTrailers callback payload) := by
  simp only [Consistent, hp] at h
  have hr : d.releases = [] := by simp [releases, h.1, h.2.1]
  rcases hc : callback.poll with ⟨_ | _ | e, callback'⟩
  · have := Transition.trailersStall hp hc
    simpa [awaitTrailers, hc, Outcome.after] using this
  · have := Transition.trailersDone hp hc
    simpa [awaitTrailers, hc, finishWith, hr, Outcome.after] using this
  · have := Transition.trailersFail hp hc
    simpa [awaitTrailers, hc, Demux.fail, finishWith, hr, Outcome.after] using this

/-- **A step is a transition.** -/
theorem step_transition (h : d.Consistent) : Transition d d.step := by
  cases hp : d.phase with
  | opening => simpa only [step, stepBy, hp] using transition_of_pulling h (.inl hp)
  | streaming => simpa only [step, stepBy, hp] using transition_of_pulling h (.inr hp)
  | announcing callback body => simpa only [step, stepBy, hp] using transition_of_announcing h hp
  | closing callback payload => simpa only [step, stepBy, hp] using transition_of_closing h hp
  | finished => simpa only [step, stepBy, hp] using Transition.idle hp

theorem Transition.consistent {s : Step} (h : Transition d s) (hd : d.Consistent) :
    s.demux.Consistent := by
  cases h with
  | deliver hp =>
    obtain ⟨callback, ht⟩ := hd.onTrailers_of_pulling hp
    simp [Consistent, ht]
  | _ => simp_all [Consistent, finish]

/-- An error or the end leaves nothing to wait for. -/
theorem Transition.finished_of_last {s : Step} {answer : Answer} (h : Transition d s)
    (hs : s.value = some answer) (ha : answer.IsLast) : s.demux.phase = .finished := by
  rcases ha with rfl | ⟨e, rfl⟩ <;> cases h <;> simp_all [finish]

end Demux

end ResponseFraming
