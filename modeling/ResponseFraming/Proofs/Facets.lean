import ResponseFraming.Proofs.Run
import Mathlib.Data.List.Forall2

/-!
# Only the facets of a chunk count

A transport may send a chunk with an empty payload where another sends none.  The two
chunks are different values but say the same, and nobody can tell from a demultiplexer
which of them it was given.

`Chunk.trim` takes an empty payload out of a chunk.  Every function of a demultiplexer
commutes with trimming what is still to come (`step_trim`), and so do polls, drains and
whole sessions (`session_trim`).  Chunks that say the same are the same when they are
trimmed (`Chunk.SaysSame.trim_eq`), so two sessions whose transports say the same are
compared through one, that with the trimmed transport.
-/

namespace ResponseFraming

/-! ## Chunks that say the same -/

/-- Two chunks have the same head, the same completion and the same bytes, where a payload that
is empty has as many as none. -/
structure Chunk.SaysSame (c c' : Chunk) : Prop where
  head : c.head = c'.head
  completion : c.completion = c'.completion
  data : c.data.getD [] = c'.data.getD []

/-- The same answer of a transport, or chunks that say the same. -/
inductive Signal.SaysSame : Signal → Signal → Prop
  | refl (s : Signal) : SaysSame s s
  | chunk {c c' : Chunk} (h : c.SaysSame c') : SaysSame (.chunk c) (.chunk c')

/-- The same event, or polls of two transports that say the same. -/
inductive Event.SaysSame : Event → Event → Prop
  | refl (e : Event) : SaysSame e e
  | transportPolled {s s' : Signal} (h : s.SaysSame s') :
      SaysSame (.transportPolled s) (.transportPolled s')

theorem forall₂_of_map_eq {α β : Type} {f : α → β} {R : α → α → Prop} {l l' : List α}
    (hR : ∀ a a', f a = f a' → R a a') (h : l.map f = l'.map f) : List.Forall₂ R l l' := by
  have hall : List.Forall₂ (· = ·) (l.map f) (l'.map f) := by
    rw [h]
    exact List.forall₂_refl _
  rw [List.forall₂_map_left_iff, List.forall₂_map_right_iff] at hall
  exact hall.imp hR

/-! ## Trimming -/

/-- The chunk without a payload that is empty. -/
def Chunk.trim (c : Chunk) : Chunk := { c with data := c.payload? }

def Signal.trim : Signal → Signal
  | chunk c => chunk c.trim
  | s => s

def Event.trim : Event → Event
  | transportPolled s => transportPolled s.trim
  | e => e

def Demux.trim (d : Demux) : Demux := { d with source := d.source.map Signal.trim }

def Outcome.trim {α : Type} (o : Outcome α) : Outcome α :=
  ⟨o.demux.trim, o.events.map Event.trim, o.value⟩

def Demux.Reaction.trim (r : Reaction) : Reaction :=
  ⟨r.demux.map Demux.trim, r.events.map Event.trim, r.result⟩

namespace Chunk

theorem payload?_trim (c : Chunk) : c.trim.payload? = c.payload? := by
  obtain ⟨head, data, completion⟩ := c
  rcases data with _ | _ | ⟨b, rest⟩ <;> rfl

theorem facets_trim (c : Chunk) : c.trim.facets = c.facets := by
  obtain ⟨head, data, completion⟩ := c
  rcases data with _ | _ | ⟨b, rest⟩ <;> rfl

theorem shape_trim (c : Chunk) : c.trim.shape = c.shape := by
  rw [shape, shape, payload?_trim]
  rfl

theorem SaysSame.trim_eq {c c' : Chunk} (h : c.SaysSame c') : c.trim = c'.trim := by
  obtain ⟨head, data, completion⟩ := c
  obtain ⟨head', data', completion'⟩ := c'
  obtain ⟨rfl, rfl, hd⟩ := h
  rcases data with _ | _ | ⟨b, rest⟩ <;> rcases data' with _ | _ | ⟨b', rest'⟩ <;> cases hd <;> rfl

theorem saysSame_of_trim_eq {c c' : Chunk} (h : c.trim = c'.trim) : c.SaysSame c' := by
  have hdata : ∀ c : Chunk, c.data.getD [] = c.trim.data.getD [] := by
    intro c
    obtain ⟨head, data, completion⟩ := c
    rcases data with _ | _ | ⟨b, rest⟩ <;> rfl
  have hhead : c.trim.head = c'.trim.head := by rw [h]
  have hcompletion : c.trim.completion = c'.trim.completion := by rw [h]
  exact ⟨hhead, hcompletion, by rw [hdata, hdata c', h]⟩

end Chunk

theorem Signal.SaysSame.trim_eq {s s' : Signal} (h : s.SaysSame s') : s.trim = s'.trim := by
  cases h with
  | refl => rfl
  | chunk h => exact congrArg Signal.chunk h.trim_eq

theorem Signal.saysSame_of_trim_eq {s s' : Signal} (h : s.trim = s'.trim) : s.SaysSame s' := by
  cases s <;> cases s' <;> simp only [Signal.trim, reduceCtorEq, Signal.chunk.injEq] at h
  · exact .chunk (Chunk.saysSame_of_trim_eq h)
  · cases h
    exact .refl _
  · exact .refl _
  · exact .refl _

theorem Event.saysSame_of_trim_eq {e e' : Event} (h : e.trim = e'.trim) : e.SaysSame e' := by
  by_cases he : ∃ s s', e = .transportPolled s ∧ e' = .transportPolled s'
  · obtain ⟨s, s', rfl, rfl⟩ := he
    exact .transportPolled (Signal.saysSame_of_trim_eq (Event.transportPolled.inj h))
  · obtain rfl : e = e' := by
      cases e <;> cases e' <;> simp_all [Event.trim]
    exact .refl e

theorem Outcome.trim_after {α : Type} (o : Outcome α) (es : List Event) :
    (o.after es).trim = o.trim.after (es.map Event.trim) := by
  simp [trim, after]

theorem Outcome.trim_map {α β : Type} (f : α → β) (o : Outcome α) :
    (o.map f).trim = o.trim.map f := rfl

namespace Demux

variable (d : Demux)

/-! ## A step on trimmed chunks -/

theorem finishWith_trim (answer : Option Answer) :
    d.trim.finishWith answer = (d.finishWith answer).trim := by
  obtain ⟨source, onHead, onTrailers, policy, phase, pulled⟩ := d
  cases onHead <;> cases onTrailers <;> rfl

theorem advance_trim (body : Body) : d.trim.advance body = (d.advance body).trim := by
  obtain ⟨source, onHead, onTrailers, policy, phase, pulled⟩ := d
  obtain ⟨payload, completion⟩ := body
  cases completion with
  | none => cases payload <;> rfl
  | some completion =>
    cases onTrailers with
    | none => exact finishWith_trim _ _
    | some callback => rfl

theorem accept_trim (body : Body) :
    acceptBy advance d.trim body = (acceptBy advance d body).trim := by
  rw [acceptBy, advance_trim, acceptBy, Outcome.trim_after]
  cases body.isMetadata <;> rfl

theorem receiveFirst_trim (head : Option Head) (body : Body) :
    receiveFirstBy advance d.trim head body = (receiveFirstBy advance d head body).trim := by
  obtain ⟨source, onHead, onTrailers, policy, phase, pulled⟩ := d
  cases onHead with
  | none => exact accept_trim _ _
  | some callback =>
    cases head with
    | some head => rfl
    | none =>
      exact congrArg (Outcome.after · [.log .noHead, .headReleased])
        (accept_trim ⟨source, none, onTrailers, policy, phase, pulled⟩ body)

theorem receiveLater_trim (head : Option Head) (body : Body) :
    receiveLaterBy advance d.trim head body = (receiveLaterBy advance d head body).trim := by
  have hp : d.trim.policy = d.policy := rfl
  cases head with
  | none => exact d.accept_trim body
  | some head =>
    cases hl : d.policy.lateHead with
    | reject =>
      simp only [receiveLaterBy, hp, hl]
      exact d.finishWith_trim _
    | ignore =>
      simp only [receiveLaterBy, hp, hl, accept_trim]
      rfl

/-- What is done about a chunk depends on its facets, and what is logged of it on its shape. -/
theorem receive_trim (c : Chunk) :
    receiveBy advance d.trim c.trim = (receiveBy advance d c).trim := by
  let counted : Demux := { d with pulled := d.pulled + 1 }
  have hp : d.trim.phase = d.phase := rfl
  simp only [receiveBy, Chunk.facets_trim, Chunk.shape_trim, hp]
  split
  · exact congrArg (Outcome.after · _) (counted.receiveFirst_trim _ _)
  · exact congrArg (Outcome.after · _) (counted.receiveLater_trim _ _)

theorem endOfTransport_trim : d.trim.endOfTransport = d.endOfTransport.trim := by
  obtain ⟨source, onHead, onTrailers, ⟨truncation, lateHead⟩, phase, pulled⟩ := d
  cases truncation <;> cases onHead <;> cases onTrailers <;> rfl

theorem pull_trim : pullBy advance d.trim = (pullBy advance d).trim := by
  obtain ⟨source, onHead, onTrailers, policy, phase, pulled⟩ := d
  cases source with
  | nil =>
    exact congrArg (Outcome.after · _)
      (endOfTransport_trim ⟨[], onHead, onTrailers, policy, phase, pulled⟩)
  | cons signal source =>
    let rest : Demux := ⟨source, onHead, onTrailers, policy, phase, pulled⟩
    cases signal with
    | pending => rfl
    | failed e =>
      have := rest.finishWith_trim (some (.item (.error e)))
      exact congrArg (fun s => (Outcome.after s _).after _) this
    | ended => exact congrArg (Outcome.after · _) rest.endOfTransport_trim
    | chunk c => exact congrArg (Outcome.after · _) (rest.receive_trim c)

theorem awaitHead_trim (callback : Callback) (body : Body) :
    awaitHeadBy advance d.trim callback body = (awaitHeadBy advance d callback body).trim := by
  rcases hc : callback.poll with ⟨_ | _ | e, callback'⟩
  · simp only [awaitHeadBy, hc]
    rfl
  · simp only [awaitHeadBy, hc, advance_trim, Outcome.trim_after]
    rfl
  · simp only [awaitHeadBy, hc, fail, finishWith_trim, Outcome.trim_after]
    rfl

theorem awaitTrailers_trim (callback : Callback) (payload : Option Bytes) :
    d.trim.awaitTrailers callback payload = (d.awaitTrailers callback payload).trim := by
  rcases hc : callback.poll with ⟨_ | _ | e, callback'⟩
  · simp only [awaitTrailers, hc]
    rfl
  · simp only [awaitTrailers, hc, finishWith_trim, Outcome.trim_after]
    rfl
  · simp only [awaitTrailers, hc, fail, finishWith_trim, Outcome.trim_after]
    rfl

/-- **A step is the same on trimmed chunks.** -/
theorem step_trim : d.trim.step = d.step.trim := by
  have hp : d.trim.phase = d.phase := rfl
  cases h : d.phase with
  | opening | streaming => simpa only [step, stepBy, hp, h] using d.pull_trim
  | announcing callback body =>
    simpa only [step, stepBy, hp, h] using d.awaitHead_trim callback body
  | closing callback payload =>
    simpa only [step, stepBy, hp, h] using d.awaitTrailers_trim callback payload
  | finished =>
    simp only [step, stepBy, hp, h]
    rfl

/-! ## Sessions on trimmed chunks -/

theorem poll_trim : d.trim.poll = d.poll.trim := by
  induction d using poll_induction with
  | answer d a h =>
    have ht : d.trim.step.value = some a := by rw [step_trim]; exact h
    rw [poll_of_answer h, poll_of_answer ht, step_trim]
    simp [Outcome.trim, Event.trim]
  | go d h ih =>
    have ht : d.trim.step.value = none := by rw [step_trim]; exact h
    rw [poll_of_none h, poll_of_none ht, step_trim, Outcome.trim_after, ← ih]
    rfl

theorem next_trim : d.trim.next = d.next.trim := by
  induction d using next_induction with
  | ready d h =>
    have ht : d.trim.poll.value ≠ .pending := by rw [poll_trim]; exact h
    rw [next_of_ready h, next_of_ready ht, poll_trim]
  | pending d h ih =>
    have ht : d.trim.poll.value = .pending := by rw [poll_trim]; exact h
    rw [next_of_pending h, next_of_pending ht, poll_trim, Outcome.trim_after, ← ih]
    rfl

theorem drain_trim : d.trim.drain = d.drain.trim := by
  induction d using drain_induction with
  | finished d h =>
    have ht : d.trim.next.value = .finished := by rw [next_trim]; exact h
    rw [drain_of_finished h, drain_of_finished ht, next_trim]
    rfl
  | item d i h ih =>
    have ht : d.trim.next.value = .item i := by rw [next_trim]; exact h
    rw [drain_of_item h, drain_of_item ht, next_trim, Outcome.trim_after, Outcome.trim_map, ← ih]
    rfl

theorem gather_trim : d.trim.gather = d.gather.trim := by
  induction d using drain_induction with
  | finished d h =>
    have ht : d.trim.next.value = .finished := by rw [next_trim]; exact h
    rw [gather_of_finished h, gather_of_finished ht, next_trim]
    rfl
  | item d i h ih =>
    have ht : d.trim.next.value = .item i := by rw [next_trim]; exact h
    cases i with
    | error e =>
      rw [gather_of_error h, gather_of_error ht, next_trim]
      rfl
    | payload bytes =>
      rw [gather_of_payload h, gather_of_payload ht, next_trim, Outcome.trim_after,
        Outcome.trim_map, ← ih]
      rfl

theorem releases_trim : d.trim.releases = d.releases.map Event.trim :=
  congrArg Outcome.events (d.finishWith_trim none)

theorem perform_trim (operation : Operation) :
    d.trim.perform operation = (d.perform operation).trim := by
  cases operation with
  | poll =>
    simp only [perform, poll_trim]
    rfl
  | next =>
    simp only [perform, next_trim]
    rfl
  | drain =>
    simp only [perform, drain_trim]
    rfl
  | collect =>
    have hc : d.trim.collect = d.collect.trim := by
      rw [collect, gather_trim, collect, Outcome.trim_map]
    have hr : d.collect.trim.demux.releases = d.collect.demux.releases.map Event.trim :=
      d.collect.demux.releases_trim
    simp only [perform, hc, hr, Reaction.trim, List.map_append]
    rfl
  | drop =>
    simp only [perform, releases_trim]
    rfl
  | configure policy => rfl

/-- **A session is the same on trimmed chunks.** -/
theorem session_trim (d : Option Demux) (operations : List Operation) :
    session (d.map trim) operations = (session d operations).map Reaction.trim := by
  induction operations generalizing d with
  | nil => rfl
  | cons operation rest ih =>
    have hp : perform? (d.map trim) operation = (perform? d operation).trim := by
      cases d with
      | none => rfl
      | some d => exact d.perform_trim operation
    rw [session, hp, session, List.map_cons, ← ih]
    rfl

/-! ## Sessions that nobody can tell apart -/

/-- Two reactions show the same: the result, the number of chunks, whether all is over, and event
for event the same, save that a poll of the transport may have delivered another chunk that says
the same. -/
structure Reaction.LooksSame (r r' : Reaction) : Prop where
  result : r.result = r'.result
  pulled : r.demux.map (·.pulled) = r'.demux.map (·.pulled)
  isFinished : r.demux.map (·.isFinished) = r'.demux.map (·.isFinished)
  polls : transportPolls r.events = transportPolls r'.events
  others : r.events.filter (!·.isTransportPoll) = r'.events.filter (!·.isTransportPoll)
  events : List.Forall₂ Event.SaysSame r.events r'.events

theorem transportPolls_trim (es : List Event) :
    transportPolls (es.map Event.trim) = transportPolls es := by
  have hp : Event.isTransportPoll ∘ Event.trim = Event.isTransportPoll := by
    funext e
    cases e <;> rfl
  rw [transportPolls, List.countP_map, hp, transportPolls]

theorem others_trim (es : List Event) :
    (es.map Event.trim).filter (!·.isTransportPoll) = es.filter (!·.isTransportPoll) := by
  induction es with
  | nil => rfl
  | cons e es ih =>
    rw [List.map_cons, List.filter_cons, List.filter_cons, ih]
    cases e <;> rfl

theorem Reaction.looksSame_of_trim_eq {r r' : Reaction} (h : r.trim = r'.trim) :
    r.LooksSame r' := by
  have hresult : r.trim.result = r'.trim.result := by rw [h]
  have hevents : r.events.map Event.trim = r'.events.map Event.trim := congrArg Reaction.events h
  have hdemux : r.demux.map Demux.trim = r'.demux.map Demux.trim := congrArg Reaction.demux h
  -- trimming leaves everything of a demultiplexer but what is to come
  have hof : ∀ {α : Type} (f : Demux → α), (∀ d, f (Demux.trim d) = f d) →
      r.demux.map f = r'.demux.map f := by
    intro α f hf
    have hft : f ∘ Demux.trim = f := funext hf
    rw [← hft, ← Option.map_map, ← Option.map_map, hdemux]
  refine ⟨hresult, hof _ fun _ => rfl, hof _ fun _ => rfl, ?_, ?_, ?_⟩
  · rw [← transportPolls_trim, hevents, transportPolls_trim]
  · rw [← others_trim, hevents, others_trim]
  · exact forall₂_of_map_eq (fun _ _ => Event.saysSame_of_trim_eq) hevents

theorem map_trim_eq {source source' : Transport} (h : List.Forall₂ Signal.SaysSame source source') :
    source.map Signal.trim = source'.map Signal.trim := by
  induction h with
  | nil => rfl
  | cons h _ ih => rw [List.map_cons, List.map_cons, h.trim_eq, ih]

/-- **Only the facets of a chunk count.**  Two transports that say the same, with the same
callbacks and the same operations, give two sessions that look the same at every operation. -/
theorem session_of_saysSame {source source' : Transport}
    (h : List.Forall₂ Signal.SaysSame source source') (onHead onTrailers : Callback)
    (policy : Policy) (operations : List Operation) :
    List.Forall₂ Reaction.LooksSame
      (session (some (new source onHead onTrailers policy)) operations)
      (session (some (new source' onHead onTrailers policy)) operations) := by
  have hd : (new source onHead onTrailers policy).trim =
      (new source' onHead onTrailers policy).trim :=
    congrArg (new · onHead onTrailers policy) (map_trim_eq h)
  apply forall₂_of_map_eq fun _ _ => Reaction.looksSame_of_trim_eq
  rw [← session_trim, ← session_trim, Option.map_some, Option.map_some, hd]

/-- Three chunks of which two have an empty payload where the others have none, the first with a
head and the last with trailers; they are different values, and both sessions look the same. -/
theorem session_of_saysSame_empty :
    let head : Head := ⟨200, .empty⟩
    let completion : Completion := ⟨some .empty⟩
    let source : Transport :=
      [.chunk ⟨some head, some [], none⟩, .pending, .chunk ⟨none, none, none⟩,
        .chunk ⟨none, none, some completion⟩]
    let source' : Transport :=
      [.chunk ⟨some head, none, none⟩, .pending, .chunk ⟨none, some [], none⟩,
        .chunk ⟨none, some [], some completion⟩]
    let operations : List Operation := [.poll, .configure .strict, .next, .collect, .poll]
    source ≠ source' ∧ List.Forall₂ Signal.SaysSame source source' ∧
      List.Forall₂ Reaction.LooksSame
        (session (some (new source ⟨1, none⟩ ⟨2, none⟩ .default)) operations)
        (session (some (new source' ⟨1, none⟩ ⟨2, none⟩ .default)) operations) := by
  intro head completion source source' operations
  have h : List.Forall₂ Signal.SaysSame source source' :=
    .cons (.chunk ⟨rfl, rfl, rfl⟩) (.cons (.refl _) (.cons (.chunk ⟨rfl, rfl, rfl⟩)
      (.cons (.chunk ⟨rfl, rfl, rfl⟩) .nil)))
  exact ⟨by decide, h, session_of_saysSame h ⟨1, none⟩ ⟨2, none⟩ .default operations⟩

end Demux

end ResponseFraming
