import ResponseFraming.Proofs.Run

/-!
# The order of notifications

`Permits before e` says what must have gone before an event: before a call of
the head callback, a call of the trailer callback, a payload and the end.  Every
event of every session is permitted by the events before it, whatever the
policies are and whenever they change.

The proof keeps to the acts, the events other than log entries and releases
(`acts`), since no condition speaks of those.  `Agrees d es` is the invariant: it
says for each phase what the acts so far have been.  `agrees_transition` is its
step, and shows on the way that the acts of the step may follow (`Follows`).

What an operation returns is told by its events: `tells_session`.
-/

namespace ResponseFraming

/-! ## What must have gone before -/

/-- If the first chunk had a head, the head callback has ended well; and if it was called at all, it
has not failed. -/
def HeadSettled (events : List Event) : Prop :=
  (∀ c, (delivered events).head? = some c → c.hasHead → .headPolled .done ∈ events) ∧
    (∀ head, .headCalled head ∈ events → .headPolled .done ∈ events) ∧
    ∀ e, .headPolled (.failed e) ∉ events

def lastChunk? (events : List Event) : Option Chunk := (delivered events).find? (·.isComplete)

/-- What must have gone before an event.  The other events are free. -/
def Permits (before : List Event) : Event → Prop
  /- Called once, with the head of the first chunk, before any item. -/
  | .headCalled head =>
    (∀ h, .headCalled h ∉ before) ∧
      (∃ c, (delivered before).head? = some c ∧ c.head = some head) ∧ items before = []
  /- Called once, with the trailers of the first complete chunk, when the head is settled. -/
  | .trailersCalled trailers =>
    (∀ t, .trailersCalled t ∉ before) ∧
      (∃ c, lastChunk? before = some c ∧ c.completion = some ⟨trailers⟩) ∧ HeadSettled before
  /- Given when the head is settled.  Once a complete chunk has come this is its payload, and the
  trailer callback has ended well. -/
  | .answered (.item (.payload bytes)) =>
    HeadSettled before ∧
      ∀ c, lastChunk? before = some c → c.payload? = some bytes ∧ .trailersPolled .done ∈ before
  /- Once a complete chunk has come, the trailer callback has ended well or an error was given. -/
  | .answered .finished =>
    ∀ c, lastChunk? before = some c →
      .trailersPolled .done ∈ before ∨ ∃ e, .error e ∈ items before
  | _ => True

/-- Each of the later events is permitted by those before it. -/
def Follows (before : List Event) : List Event → Prop
  | [] => True
  | e :: later => Permits before e ∧ Follows (before ++ [e]) later

theorem follows_append (before es fs : List Event) :
    Follows before (es ++ fs) ↔ Follows before es ∧ Follows (before ++ es) fs := by
  induction es generalizing before with
  | nil => simp [Follows]
  | cons e es ih =>
    have h : before ++ e :: es = (before ++ [e]) ++ es := by simp
    simp only [List.cons_append, Follows, ih, h]
    exact and_assoc.symm

/-! ## Acts -/

/-- Log entries and releases, in which neither the transport nor a called callback nor the consumer
has a part. -/
@[simp] def Event.isQuiet : Event → Bool
  | .log _ | .headReleased | .trailersReleased => true
  | _ => false

/-- The polls, calls and answers. -/
@[simps] def acts : Reading Event Event where
  shows? e := if !e.isQuiet then some e else none

theorem mem_acts (es : List Event) {e : Event} (he : e.isQuiet = false) :
    e ∈ acts es ↔ e ∈ es := by
  have hkind : e ∈ acts es ↔ e ∈ es ∧ !e.isQuiet := Reading.mem_kind
  rw [hkind, he]
  simp

/-- What no quiet event shows can be read off the acts. -/
theorem of_acts {β : Type} {r : Reading Event β} (h : ∀ e, e.isQuiet → r.shows? e = none)
    (es : List Event) : r (acts es) = r es :=
  Reading.of_kind (fun e he => h e (by simpa only [Bool.not_eq_false'] using he)) es

theorem acts_acts (es : List Event) : acts (acts es) = acts es :=
  of_acts (fun e he => by rw [acts_shows?, he]; rfl) es

theorem items_acts (es : List Event) : items (acts es) = items es :=
  of_acts (fun e he => by cases e <;> simp_all) es

theorem delivered_acts (es : List Event) : delivered (acts es) = delivered es :=
  of_acts (fun e he => by cases e <;> simp_all) es

theorem headSettled_acts {es : List Event} : HeadSettled (acts es) ↔ HeadSettled es := by
  unfold HeadSettled
  simp only [delivered_acts, mem_acts es (e := .headPolled .done) rfl,
    fun head => mem_acts es (e := .headCalled head) rfl,
    fun e => mem_acts es (e := .headPolled (.failed e)) rfl]

theorem permits_acts {before : List Event} {e : Event} :
    Permits (acts before) e ↔ Permits before e := by
  cases e with
  | answered answer =>
    rcases answer with _ | (_ | _) | _ <;>
      simp only [Permits, lastChunk?, delivered_acts, items_acts, headSettled_acts,
        mem_acts before (e := .trailersPolled .done) rfl]
  | _ =>
    simp only [Permits, lastChunk?, delivered_acts, items_acts, headSettled_acts,
      fun head => mem_acts before (e := .headCalled head) rfl,
      fun trailers => mem_acts before (e := .trailersCalled trailers) rfl]

/-- What holds of the acts holds of all events. -/
theorem permits_of_follows {events before after : List Event} {e : Event}
    (h : Follows [] (acts events)) (he : events = before ++ e :: after) : Permits before e := by
  rw [he, Reading.of_append, follows_append, Reading.of_cons] at h
  cases hq : e.isQuiet with
  | true => cases e <;> simp_all [Permits]
  | false =>
    simp only [acts_shows?, hq, Bool.not_false, if_true, Option.toList_some] at h
    exact permits_acts.mp h.2.1

/-! ## The invariant -/

namespace Demux

variable {d d' : Demux} {es fs : List Event}

/-- What the acts so far have been, for each phase. -/
def Agrees (d : Demux) (acts : List Event) : Prop :=
  match d.phase with
  | .opening =>
    delivered acts = [] ∧ items acts = [] ∧ (∀ head, .headCalled head ∉ acts) ∧
      (∀ trailers, .trailersCalled trailers ∉ acts) ∧ ∀ e, .headPolled (.failed e) ∉ acts
  | .announcing _ body =>
    (∃ c, delivered acts = [c] ∧ c.facets.2 = body) ∧
      (∀ trailers, .trailersCalled trailers ∉ acts) ∧ ∀ e, .headPolled (.failed e) ∉ acts
  | .streaming =>
    delivered acts ≠ [] ∧ (∀ c ∈ delivered acts, c.completion = none) ∧
      (∀ trailers, .trailersCalled trailers ∉ acts) ∧ HeadSettled acts
  | .closing _ payload =>
    (∃ c, lastChunk? acts = some c ∧ c.payload? = payload) ∧ HeadSettled acts
  | .finished =>
    ∀ c, lastChunk? acts = some c → .trailersPolled .done ∈ acts ∨ ∃ e, .error e ∈ items acts

theorem agrees_new (source : Transport) (onHead onTrailers : Callback) (policy : Policy) :
    (new source onHead onTrailers policy).Agrees [] := by simp [Agrees, new]

theorem lastChunk?_eq_none (h : ∀ c ∈ delivered es, c.completion = none) :
    lastChunk? es = none := by
  apply List.find?_eq_none.mpr
  intro c hc
  simp [Chunk.isComplete, h c hc]

theorem headSettled_of_done (hd : .headPolled .done ∈ es)
    (hf : ∀ e, .headPolled (.failed e) ∉ es) : HeadSettled es :=
  ⟨fun _ _ _ => hd, fun _ _ => hd, hf⟩

/-- Before any complete chunk has come, an end is free. -/
theorem Agrees.incomplete_of_pulling (h : d.Agrees es) (hp : d.Pulling) :
    ∀ c ∈ delivered es, c.completion = none := by
  rcases hp with hp | hp <;> simp only [Agrees, hp] at h
  · simp [h.1]
  · exact h.2.1

theorem Agrees.uncalled_of_pulling (h : d.Agrees es) (hp : d.Pulling) (t : Option Trailers) :
    .trailersCalled t ∉ es := by
  rcases hp with hp | hp <;> simp only [Agrees, hp] at h
  · exact h.2.2.2.1 t
  · exact h.2.2.1 t

theorem Agrees.headSettled_of_passes (h : d.Agrees es) {c : Chunk} (hp : d.Pulling)
    (hh : d.Passes c) : HeadSettled (es ++ [.transportPolled (.chunk c)]) := by
  rcases hp with hp | hp <;> simp only [Agrees, hp] at h
  · have hc : c.head = none := by simpa [Passes, hp] using hh
    refine ⟨?_, ?_, ?_⟩
    · simp [h.1, Chunk.hasHead, hc]
    · intro head hm
      simp [h.2.2.1] at hm
    · simp [h.2.2.2.2]
  · obtain ⟨hne, -, -, hs⟩ := h
    obtain ⟨c', rest, hd⟩ := List.exists_cons_of_ne_nil hne
    refine ⟨?_, ?_, ?_⟩
    · simpa [hd] using hs.1
    · simpa using hs.2.1
    · simpa using hs.2.2

theorem Agrees.delivered_of_passes (h : d.Agrees es) {c : Chunk} (hp : d.Pulling)
    (hc : c.completion = none) :
    ∀ c' ∈ delivered (es ++ [.transportPolled (.chunk c)]), c'.completion = none := by
  intro c' hm
  rw [Reading.of_append, List.mem_append] at hm
  rcases hm with hm | hm
  · exact h.incomplete_of_pulling hp c' hm
  · obtain rfl : c' = c := by simpa using hm
    exact hc

theorem agrees_yield (hf : Follows es fs) (hp : d.phase = .streaming)
    (hd : delivered (es ++ fs) ≠ []) (hi : ∀ c ∈ delivered (es ++ fs), c.completion = none)
    (ht : ∀ trailers, .trailersCalled trailers ∉ es ++ fs) (hs : HeadSettled (es ++ fs))
    (payload : Option Bytes) :
    Follows es (fs ++ giving payload) ∧ d.Agrees (es ++ (fs ++ giving payload)) := by
  have hn := lastChunk?_eq_none hi
  rw [follows_append, ← List.append_assoc]
  generalize es ++ fs = gs at *
  cases payload with
  | none => simpa [giving, hf, Follows, Agrees, hp] using ⟨hd, hi, ht, hs⟩
  | some bytes =>
    refine ⟨⟨hf, ⟨hs, by simp [hn]⟩, trivial⟩, ?_⟩
    simpa [giving, Agrees, hp, HeadSettled] using ⟨hd, hi, ht, hs⟩

/-- After acts that leave the head settled and a first complete chunk, the trailer callback may be
called. -/
theorem agrees_call {callback : Callback} {c : Chunk} {completion : Completion}
    (hf : Follows es fs) (hp : d.phase = .closing callback c.payload?)
    (hl : lastChunk? (es ++ fs) = some c) (hc : c.completion = some completion)
    (ht : ∀ trailers, .trailersCalled trailers ∉ es ++ fs) (hs : HeadSettled (es ++ fs)) :
    Follows es (fs ++ [.trailersCalled completion.trailers]) ∧
      d.Agrees (es ++ (fs ++ [.trailersCalled completion.trailers])) := by
  rw [follows_append, ← List.append_assoc]
  generalize es ++ fs = gs at *
  refine ⟨⟨hf, ⟨ht, ⟨c, hl, hc⟩, hs⟩, trivial⟩, ?_⟩
  simp only [lastChunk?] at hl
  simpa [Agrees, hp, lastChunk?, hl, HeadSettled] using hs

/-- **The step of the invariant**: the acts of a step may follow, and agree with where it leads. -/
theorem agrees_transition {s : Step} (h : Transition d s) (ha : d.Agrees es) :
    Follows es (acts s.trace) ∧ s.demux.Agrees (es ++ acts s.trace) := by
  cases h with
  | idle h =>
    simp only [Agrees, h, lastChunk?] at ha
    simpa [Step.trace, Follows, Permits, Agrees, h, lastChunk?] using ha
  | stall h hs =>
    refine ⟨by simp [Step.trace, Follows, Permits], ?_⟩
    rcases h with h | h <;> simpa [Agrees, h, Step.trace, HeadSettled] using ha
  | fail h hs =>
    exact ⟨by simp [Step.trace, Follows, Permits], by simp [Agrees, finish, Step.trace]⟩
  | exhaust h hs hp =>
    have hn := lastChunk?_eq_none (ha.incomplete_of_pulling h)
    simp only [lastChunk?] at hn
    simp [Step.trace, Follows, Permits, Agrees, finish, lastChunk?, hn]
  | truncate h hs hp =>
    exact ⟨by simp [Step.trace, Follows, Permits], by simp [Agrees, finish, Step.trace]⟩
  | reject h hs hh hp =>
    exact ⟨by simp [Step.trace, Follows, Permits], by simp [Agrees, finish, Step.trace]⟩
  | announce h hs hh hc =>
    simp only [Agrees, h] at ha
    obtain ⟨hd, hi, hc, ht, hf⟩ := ha
    simp [Step.trace, Follows, Permits, Agrees, hd, hi, hc, ht, hf, hh]
  | @deliver _ c h hs hh hc =>
    have hcall := ha.uncalled_of_pulling h
    have hf : Follows es [.transportPolled (.chunk c)] := ⟨trivial, trivial⟩
    rw [Step.trace_giving, show acts _ = [.transportPolled (.chunk c)] ++ giving c.payload? by simp]
    exact agrees_yield hf rfl (by simp) (ha.delivered_of_passes h hc) (by simpa using hcall)
      (ha.headSettled_of_passes h hh) c.payload?
  | @close _ c completion _ h hs hh hc ht =>
    have hcall := ha.uncalled_of_pulling h
    have hl : lastChunk? (es ++ [.transportPolled (.chunk c)]) = some c := by
      have hn := lastChunk?_eq_none (ha.incomplete_of_pulling h)
      have hcomp : c.isComplete = true := by simp [Chunk.isComplete, hc]
      rw [lastChunk?] at hn ⊢
      simp [hn, hcomp]
    have hf : Follows es [.transportPolled (.chunk c)] := ⟨trivial, trivial⟩
    rw [show acts _ = [.transportPolled (.chunk c)] ++ [.trailersCalled completion.trailers] by
      simp [Step.trace]]
    exact agrees_call hf rfl hl hc (by simpa using hcall) (ha.headSettled_of_passes h hh)
  | headStall h hc =>
    simpa [Step.trace, Follows, Permits, Agrees, h] using ha
  | headFail h hc =>
    exact ⟨by simp [Step.trace, Follows, Permits], by simp [Agrees, finish, Step.trace]⟩
  | @headDeliver _ _ body h hc hb =>
    simp only [Agrees, h] at ha
    obtain ⟨⟨c, hd, rfl⟩, hcall, hfail⟩ := ha
    have hcomp : c.completion = none := hb
    have hf : Follows es [.headPolled .done] := ⟨trivial, trivial⟩
    rw [Step.trace_giving, show acts _ = [.headPolled .done] ++ giving c.facets.2.payload by simp]
    exact agrees_yield hf rfl (by simp [hd]) (by simpa [hd] using hcomp) (by simpa using hcall)
      (headSettled_of_done (by simp) (by simpa using hfail)) _
  | @headClose _ _ _ _ completion h hc hb ht =>
    simp only [Agrees, h] at ha
    obtain ⟨⟨c, hd, rfl⟩, hcall, hfail⟩ := ha
    have hcomp : c.completion = some completion := hb
    have hl : lastChunk? (es ++ [.headPolled .done]) = some c := by
      simp [lastChunk?, hd, Chunk.isComplete, hcomp]
    have hf : Follows es [.headPolled .done] := ⟨trivial, trivial⟩
    rw [Chunk.facets_payload,
      show acts _ = [.headPolled .done] ++ [.trailersCalled completion.trailers] by
        simp [Step.trace]]
    exact agrees_call hf rfl hl hcomp (by simpa using hcall)
      (headSettled_of_done (by simp) (by simpa using hfail))
  | trailersStall h hc =>
    simpa [Step.trace, Follows, Permits, Agrees, h, lastChunk?, HeadSettled] using ha
  | trailersFail h hc =>
    exact ⟨by simp [Step.trace, Follows, Permits], by simp [Agrees, finish, Step.trace]⟩
  | trailersDone h hc =>
    simp only [Agrees, h, lastChunk?] at ha
    obtain ⟨⟨c, hl, rfl⟩, hs⟩ := ha
    cases hp : c.payload? with
    | none => simp [Step.trace, Follows, Permits, Agrees, finish]
    | some bytes =>
      simpa [Step.trace, Follows, Permits, Agrees, finish, lastChunk?, hl, hp, HeadSettled] using hs

theorem agrees_run (h : Run d es d') (hd : d.Consistent) (ha : d.Agrees []) :
    Follows [] (acts es) ∧ d'.Agrees (acts es) := by
  induction h with
  | refl => exact ⟨trivial, ha⟩
  | step prior ih =>
    obtain ⟨hf, hag⟩ := ih
    obtain ⟨hf', hag'⟩ := agrees_transition (step_transition (prior.consistent hd)) hag
    rw [Reading.of_append, follows_append]
    exact ⟨⟨hf, hf'⟩, hag'⟩
  | configure _ policy ih => exact ih

/-! ## What the operations return -/

/-- The result says what the events show: the answer that came last, the items that were given, or
what these make up. -/
def Reaction.Tells (r : Reaction) : Prop :=
  match r.result with
  | .answer a => items r.events = a.item?.toList ∧ r.events.getLast? = some (.answered a)
  | .items is => items r.events = is ∧ r.events.getLast? = some (.answered .finished)
  | .collected (.payload bytes) =>
    ∃ ps : List Bytes, items r.events = ps.map Item.payload ∧ bytes = ps.flatten
  | .collected (.error e) =>
    ∃ ps : List Bytes, items r.events = ps.map Item.payload ++ [.error e]
  | .dropped | .configured _ | .gone => items r.events = []

theorem getLast?_poll (d : Demux) : d.poll.events.getLast? = some (.answered d.poll.value) := by
  induction d using poll_induction with
  | answer d a h => rw [poll_of_answer h, List.getLast?_append]; rfl
  | go d h ih =>
    rw [poll_of_none h]
    change (d.step.events ++ d.step.demux.poll.events).getLast? = _
    rw [List.getLast?_append, ih]
    rfl

theorem getLast?_next (d : Demux) : d.next.events.getLast? = some (.answered d.next.value) := by
  induction d using next_induction with
  | ready d h => rw [next_of_ready h, getLast?_poll]
  | pending d h ih =>
    rw [next_of_pending h]
    change (d.poll.events ++ d.poll.demux.next.events).getLast? = _
    rw [List.getLast?_append, ih]
    rfl

theorem getLast?_drain (d : Demux) : d.drain.events.getLast? = some (.answered .finished) := by
  induction d using drain_induction with
  | finished d h => rw [drain_of_finished h, getLast?_next, h]
  | item d i h ih =>
    rw [drain_of_item h]
    change (d.next.events ++ d.next.demux.drain.events).getLast? = _
    rw [List.getLast?_append, ih]
    rfl

theorem tells_perform (h : d.Consistent) (operation : Operation) :
    (d.perform operation).Tells := by
  cases operation with
  | poll => exact ⟨items_poll h, getLast?_poll d⟩
  | next => exact ⟨items_next h, getLast?_next d⟩
  | drain => exact ⟨items_drain h, getLast?_drain d⟩
  | collect =>
    have hi := items_gather h
    have hr := Reading.of_releases (r := items) rfl rfl d.gather.demux
    rw [perform, Reaction.Tells, collect]
    simp only [Outcome.map, Reading.of_append, hr, List.append_nil, hi]
    cases d.gather.value.2 with
    | none => exact ⟨d.gather.value.1, List.append_nil _, rfl⟩
    | some e => exact ⟨d.gather.value.1, rfl⟩
  | drop => exact Reading.of_releases rfl rfl d
  | configure policy => rfl

/-- **Every operation of a session tells what its events show.** -/
theorem tells_session (h : d.Consistent) (operations : List Operation) :
    ∀ r ∈ session (some d) operations, r.Tells := by
  induction operations generalizing d with
  | nil => simp [session]
  | cons operation rest ih =>
    refine List.forall_mem_cons.mpr ⟨tells_perform h operation, ?_⟩
    rw [perform?]
    rcases run_perform d operation with ⟨d', hd', hr⟩ | ⟨hd', -⟩
    · rw [hd']
      exact ih (hr.consistent h)
    · rw [hd']
      intro r hr
      rw [session_none _ r hr]
      rfl

/-- **Notifications come in order.**  Whatever the transport and the callbacks do, and whatever
operations a session consists of, each of its events is permitted by the events before it, and
each operation returns what its events show. -/
theorem permits_record (source : Transport) (onHead onTrailers : Callback) (policy : Policy)
    (operations : List Operation) :
    (∀ before e after,
      record (some (new source onHead onTrailers policy)) operations = before ++ e :: after →
        Permits before e) ∧
      ∀ r ∈ session (some (new source onHead onTrailers policy)) operations,
        r.Tells := by
  refine ⟨fun before e after he => ?_, tells_session (consistent_new _ _ _ _) operations⟩
  obtain ⟨es, d', hr, hend⟩ := run_record (new source onHead onTrailers policy) operations
  obtain ⟨hf, -⟩ := agrees_run hr (consistent_new _ _ _ _) (agrees_new _ _ _ _)
  refine permits_of_follows ?_ he
  rcases hend with ⟨-, hrec⟩ | ⟨-, hrec⟩
  · rwa [hrec]
  · rwa [hrec, Reading.of_append, Reading.of_releases rfl rfl, List.append_nil]

/-- The payload of a chunk that is first and last comes after both callbacks. -/
theorem permits_record_payload :
    let head : Head := ⟨200, .empty⟩
    let c := ((Chunk.ofPayload [104]).withHead head).complete none
    let operations : List Operation := [.configure .strict, .drain]
    let before : List Event :=
      [.transportPolled (.chunk c), .log (.pulled 1 ⟨true, true, true, false⟩), .log .callingHead,
        .headCalled head, .headPolled .done, .log (.callingTrailers false), .trailersCalled none,
        .trailersPolled .done, .log (.complete 1)]
    let e := Event.answered (.item (.payload [104]))
    record (some (new [.chunk c] .immediate .immediate .default)) operations =
      before ++ e :: [.answered .finished] ∧ Permits before e := by
  intro head c operations before e
  have he : record (some (new [.chunk c] .immediate .immediate .default)) operations =
      before ++ e :: [.answered .finished] := by decide +kernel
  exact ⟨he, (permits_record _ _ _ _ operations).1 before e _ he⟩

end Demux

end ResponseFraming
