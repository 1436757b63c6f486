import ResponseFraming.Proofs.Run

/-!
# The course of a response

`Terms.course` says by recursion on the transport what a response comes to:
which callbacks are called with what and how they end, which are released,
which items the consumer gets, and after how many chunks it is over.  It has no
phases, and pending answers make no difference to it (`course_elements`).

`Demux.forecast` is the course that is still ahead of a demultiplexer in any
phase, and `forecast_transition` says that a step takes from it exactly the
events that make progress.  So however a demultiplexer is driven to its end,
these events are its forecast (`forecast_of_finished`), and for a new one that is
the course of its transport (`forecast_new`).
-/

namespace ResponseFraming

/-! ## Progress -/

/-- Whether an event gets a response further.  Log entries, pending answers and the answer that all
is over do not. -/
@[simp] def Event.isProgress : Event → Bool
  | .log _ | .transportPolled .pending | .headPolled .pending | .trailersPolled .pending
  | .answered .pending | .answered .finished => false
  | _ => true

@[simps] def progress : Reading Event Event where
  shows? e := if e.isProgress then some e else none

theorem items_progress (es : List Event) : items (progress es) = items es := by
  refine Reading.of_kind (fun e he => ?_) es
  rcases e with _ | _ | _ | _ | _ | _ | _ | _ | _ | _ | _ <;> simp_all

/-! ## The course -/

/-- What a response comes to: the events that get it further, and the number of chunks. -/
structure Course where
  events : List Event
  pulled : Nat
deriving DecidableEq, Repr

/-- What a course depends on besides the transport: the policy, and for each callback the error in
which it ends, if it ends in one. -/
structure Terms where
  policy : Policy
  onHead : Option StreamError
  onTrailers : Option StreamError
deriving DecidableEq, Repr

/-- The elements of a transport, without its pauses. -/
def Transport.elements (source : Transport) : Transport := source.filter (· ≠ .pending)

namespace Course

def after (c : Course) (earlier : List Event) : Course := { c with events := earlier ++ c.events }

theorem after_after (c : Course) (es fs : List Event) :
    (c.after fs).after es = c.after (es ++ fs) := by simp [after, List.append_assoc]

theorem after_nil (c : Course) : c.after [] = c := rfl

/-- The releases at the end after `n` chunks, if the trailer callback has not been called. -/
def unused (n : Nat) : List Event := (if n = 0 then [.headReleased] else []) ++ [.trailersReleased]

def error (n : Nat) (e : StreamError) : Course := ⟨unused n ++ [.answered (.item (.error e))], n⟩

end Course

namespace Terms

open Course

def ending (t : Terms) (n : Nat) : Course :=
  match t.policy.truncation with
  | .lenient => ⟨unused n, n⟩
  | .strict => error n (.framing (.truncated n))

/-- The head callback, called at chunk `n`, comes to its end. -/
def greet (t : Terms) (n : Nat) (rest : Course) : Course :=
  match t.onHead with
  | some e => (error n e).after [.headPolled (.failed e)]
  | none => rest.after [.headPolled .done]

/-- The trailer callback, called at chunk `n`, comes to its end. -/
def part (t : Terms) (n : Nat) (payload : Option Bytes) : Course :=
  match t.onTrailers with
  | some e => ⟨[.trailersPolled (.failed e), .answered (.item (.error e))], n⟩
  | none => ⟨.trailersPolled .done :: giving payload, n⟩

/-- The body of chunk `n`: if it is complete the trailer callback is called, and the response is
over. -/
def proceed (t : Terms) (n : Nat) (completion : Option Completion) (payload : Option Bytes)
    (rest : Course) : Course :=
  match completion with
  | some completion => (t.part n payload).after [.trailersCalled completion.trailers]
  | none => rest.after (giving payload)

/-- The head of chunk `n`, or its absence. -/
def meet (t : Terms) (n : Nat) (head : Option Head) (body : Course) : Course :=
  if n = 1 then
    match head with
    | some head => (t.greet n body).after [.headCalled head]
    | none => body.after [.headReleased]
  else if head.isSome ∧ t.policy.lateHead = .reject then error n (.framing (.lateHead n))
  else body

/-- **The course of a response** of which `n` chunks are past. -/
def course (t : Terms) (n : Nat) : Transport → Course
  | [] | .ended :: _ => (t.ending n).after [.transportPolled .ended]
  | .failed e :: _ => (error n e).after [.transportPolled (.failed e)]
  | .pending :: source => t.course n source
  | .chunk c :: source =>
    (t.meet (n + 1) c.head
      (t.proceed (n + 1) c.completion c.payload? (t.course (n + 1) source))).after
        [.transportPolled (.chunk c)]

theorem meet_first (t : Terms) (head : Head) (body : Course) :
    t.meet 1 (some head) body = (t.greet 1 body).after [.headCalled head] := rfl

theorem meet_headless (t : Terms) (body : Course) :
    t.meet 1 none body = body.after [.headReleased] := rfl

theorem meet_later (t : Terms) {n : Nat} (hn : 0 < n) (head : Option Head) (body : Course) :
    t.meet (n + 1) head body =
      if head.isSome ∧ t.policy.lateHead = .reject then error (n + 1) (.framing (.lateHead (n + 1)))
      else body := by
  have h : n + 1 ≠ 1 := by omega
  exact if_neg h

/-- Pauses make no difference. -/
theorem course_elements (t : Terms) (n : Nat) (source : Transport) :
    t.course n source.elements = t.course n source := by
  induction source generalizing n with
  | nil => rfl
  | cons signal source ih =>
    cases signal with
    | pending => exact ih n
    | chunk c =>
      show t.course n (.chunk c :: Transport.elements source) = _
      rw [course, course, ih]
    | _ => rfl

/-- After the first chunk the head callback makes no difference. -/
theorem course_onHead (t : Terms) (e : Option StreamError) {n : Nat} (hn : 0 < n)
    (source : Transport) : { t with onHead := e }.course n source = t.course n source := by
  induction source generalizing n with
  | nil => rfl
  | cons signal source ih =>
    cases signal with
    | pending => exact ih hn
    | chunk c =>
      rw [course, course, ih (Nat.succ_pos n), meet_later _ hn, meet_later _ hn]
      rfl
    | _ => rfl

theorem course_of_ended {source source' : Transport} (t : Terms) (n : Nat)
    (hs : source.poll = (.ended, source')) :
    t.course n source = (t.ending n).after [.transportPolled .ended] := by
  rcases source with _ | ⟨_ | _ | _ | _, source⟩
  · rfl
  · cases hs
  · cases hs
  · cases hs
  · rfl

end Terms

/-! ## What is still ahead -/

theorem Callback.failure_of_pending {callback callback' : Callback}
    (h : callback.poll = (.pending, callback')) : callback'.failure = callback.failure := by
  rcases callback with ⟨_ | delay, _ | e⟩ <;> cases h <;> rfl

theorem Callback.failure_of_done {callback callback' : Callback}
    (h : callback.poll = (.done, callback')) : callback.failure = none := by
  rcases callback with ⟨_ | delay, _ | e⟩ <;> cases h
  rfl

theorem Callback.failure_of_failed {callback callback' : Callback} {e : StreamError}
    (h : callback.poll = (.failed e, callback')) : callback.failure = some e := by
  rcases callback with ⟨_ | delay, _ | e⟩ <;> cases h
  rfl

namespace Demux

open Course

variable {d d' : Demux} {es : List Event}

/-- The terms on which a demultiplexer goes on; a callback in flight counts as one still there. -/
def terms (d : Demux) : Terms :=
  match d.phase with
  | .announcing callback _ =>
    ⟨d.policy, callback.failure, d.onTrailers.bind (·.failure)⟩
  | .closing callback _ => ⟨d.policy, none, callback.failure⟩
  | _ => ⟨d.policy, d.onHead.bind (·.failure), d.onTrailers.bind (·.failure)⟩

/-- The course that is still ahead. -/
def forecast (d : Demux) : Course :=
  match d.phase with
  | .opening | .streaming => d.terms.course d.pulled d.source
  | .announcing _ body =>
    d.terms.greet d.pulled
      (d.terms.proceed d.pulled body.completion body.payload (d.terms.course d.pulled d.source))
  | .closing _ payload => d.terms.part d.pulled payload
  | .finished => ⟨[], d.pulled⟩

theorem forecast_of_pulling (h : d.Pulling) : d.forecast = d.terms.course d.pulled d.source := by
  rcases h with h | h <;> simp only [forecast, h]

theorem terms_of_pulling (h : d.Pulling) :
    d.terms = ⟨d.policy, d.onHead.bind (·.failure), d.onTrailers.bind (·.failure)⟩ := by
  rcases h with h | h <;> simp only [terms, h]

theorem forecast_finish (d : Demux) : d.finish.forecast = ⟨[], d.pulled⟩ := rfl

theorem progress_releases_of_pulling (h : d.Consistent) (hp : d.Pulling) :
    progress d.releases = unused d.pulled := by
  obtain ⟨callback, ht⟩ := h.onTrailers_of_pulling hp
  rcases hp with hp | hp <;> simp only [Consistent, hp] at h
  · obtain ⟨next, hh⟩ := Option.isSome_iff_exists.mp h.1
    simp [releases, hh, ht, unused, h.2.2]
  · have hn : d.pulled ≠ 0 := by omega
    simp [releases, h.1, ht, unused, hn]

theorem progress_headNotes (h : d.Consistent) (hp : d.Pulling) (c : Chunk) :
    progress (d.headNotes c) = if d.pulled = 0 then [.headReleased] else [] := by
  rcases hp with hp | hp <;> simp only [Consistent, hp] at h
  · simp [headNotes, hp, h.2.2]
  · have hn : d.pulled ≠ 0 := by omega
    cases hc : c.head <;> simp [headNotes, hp, hc, hn]

/-- What is ahead once a chunk has come whose head does not keep its body back. -/
theorem course_of_passes {source : Transport} {c : Chunk} (h : d.Consistent) (hp : d.Pulling)
    (hs : d.source = .chunk c :: source) (hh : d.Passes c) :
    d.forecast =
      (d.terms.proceed (d.pulled + 1) c.completion c.payload?
        (d.terms.course (d.pulled + 1) source)).after
          (.transportPolled (.chunk c) :: progress (d.headNotes c)) := by
  rw [forecast_of_pulling hp, hs, Terms.course, progress_headNotes h hp]
  have hd := h
  rcases hp with hp | hp <;> simp only [Consistent, hp] at hd
  · have hc : c.head = none := by simpa [Passes, hp] using hh
    rw [hc, hd.2.2, Terms.meet_headless, after_after]
    rfl
  · have hn : d.pulled ≠ 0 := by omega
    have hc : ¬ (c.head.isSome ∧ d.terms.policy.lateHead = .reject) := by
      rcases hh with hh | ⟨-, hl⟩
      · simp [hh]
      · simp [terms, hp, hl]
    rw [Terms.meet_later _ hd.2.2, if_neg hc, if_neg hn]

/-- A chunk whose head does not keep its body back takes its own part from the forecast. -/
theorem forecast_deliver {source : Transport} {c : Chunk} (h : d.Consistent) (hp : d.Pulling)
    (hs : d.source = .chunk c :: source) (hh : d.Passes c) (hc : c.completion = none) :
    d.forecast =
      ({ d with source, pulled := d.pulled + 1, onHead := none, phase := .streaming } :
        Demux).forecast.after
          (.transportPolled (.chunk c) :: progress (d.headNotes c) ++ giving c.payload?) := by
  have hrest : ({ d with
      source, pulled := d.pulled + 1, onHead := none, phase := .streaming } : Demux).forecast =
      d.terms.course (d.pulled + 1) source := by
    rw [terms_of_pulling hp, forecast_of_pulling (.inr rfl)]
    exact Terms.course_onHead ⟨_, _, _⟩ none (Nat.succ_pos _) source
  rw [course_of_passes h hp hs hh, hrest, hc, Terms.proceed, after_after]

theorem forecast_close {source : Transport} {c : Chunk} {completion : Completion}
    {callback : Callback} (h : d.Consistent) (hp : d.Pulling)
    (hs : d.source = .chunk c :: source) (hh : d.Passes c) (hc : c.completion = some completion)
    (ht : d.onTrailers = some callback) :
    d.forecast =
      ({ d with
          source, pulled := d.pulled + 1, onHead := none, onTrailers := none
          phase := .closing callback c.payload? } : Demux).forecast.after
        (.transportPolled (.chunk c) :: progress (d.headNotes c) ++
          [.trailersCalled completion.trailers]) := by
  rw [course_of_passes h hp hs hh, terms_of_pulling hp, hc, ht, Terms.proceed, after_after]
  rfl

theorem forecast_announce {source : Transport} {c : Chunk} {head : Head} {callback : Callback}
    (h : d.Consistent) (hp : d.phase = .opening) (hs : d.source = .chunk c :: source)
    (hh : c.head = some head) (hc : d.onHead = some callback) :
    d.forecast =
      ({ d with
          source, pulled := d.pulled + 1, onHead := none
          phase := .announcing callback c.facets.2 } : Demux).forecast.after
        [.transportPolled (.chunk c), .headCalled head] := by
  simp only [Consistent, hp] at h
  rw [forecast_of_pulling (.inl hp), terms_of_pulling (.inl hp), hs, hc, Terms.course, hh, h.2.2,
    Terms.meet_first, after_after, ← Chunk.facets_payload]
  rfl

/-- **A step takes from the forecast the events that make progress.** -/
theorem forecast_transition {s : Step} (h : Transition d s) (hd : d.Consistent) :
    d.forecast = s.demux.forecast.after (progress s.trace) := by
  cases h with
  | idle h => rfl
  | stall h hs =>
    rw [forecast_of_pulling h, hs, Terms.course]
    rcases h with h | h <;> simp [forecast, terms, h, Step.trace, after_nil]
  | fail h hs =>
    rw [forecast_of_pulling h, hs, Terms.course, forecast_finish]
    simp [Step.trace, progress_releases_of_pulling hd h, Course.error, after]
  | exhaust h hs hp =>
    rw [forecast_of_pulling h, Terms.course_of_ended _ _ hs, forecast_finish, Terms.ending,
      terms_of_pulling h, hp]
    simp [Step.trace, progress_releases_of_pulling hd h, after]
  | truncate h hs hp =>
    rw [forecast_of_pulling h, Terms.course_of_ended _ _ hs, forecast_finish, Terms.ending,
      terms_of_pulling h, hp]
    simp [Step.trace, progress_releases_of_pulling hd h, Course.error, after]
  | reject h hs hh hp =>
    have hn := hd
    simp only [Consistent, h] at hn
    rw [forecast_of_pulling (.inr h), hs, Terms.course, Terms.meet_later _ hn.2.2,
      if_pos ⟨hh, by rw [terms_of_pulling (.inr h), hp]⟩, forecast_finish]
    simp [Step.trace, progress_releases_of_pulling hd (.inr h), Course.error, after, unused]
    omega
  | announce h hs hh hc =>
    rw [forecast_announce hd h hs hh hc]
    simp [Step.trace]
  | deliver h hs hh hc =>
    rw [forecast_deliver hd h hs hh hc, Step.trace_giving]
    simp
  | close h hs hh hc ht =>
    rw [forecast_close hd h hs hh hc ht]
    simp [Step.trace]
  | headStall h hc =>
    simp [forecast, terms, h, Callback.failure_of_pending hc, Step.trace, after_nil]
  | headFail h hc =>
    simp only [Consistent, h] at hd
    obtain ⟨callback, ht⟩ := Option.isSome_iff_exists.mp hd.2.1
    rw [forecast_finish]
    simp [forecast, terms, h, Terms.greet, Callback.failure_of_failed hc, Step.trace, Course.error,
      after, unused, releases, hd.1, hd.2.2, ht]
  | @headDeliver _ _ body h hc hb =>
    simp only [Consistent, h] at hd
    have ht : d.terms = ({ d with phase := .streaming } : Demux).terms := by
      simp [terms, h, hd.1, Callback.failure_of_done hc]
    have hg : d.terms.onHead = none := by simp [terms, h, Callback.failure_of_done hc]
    have hf : d.forecast = ((d.terms.course d.pulled d.source).after (giving body.payload)).after
        [.headPolled .done] := by
      simp only [forecast, h, Terms.greet, hg, Terms.proceed, hb]
    rw [hf, ht, after_after, Step.trace_giving]
    simp [forecast]
  | headClose h hc hb ht =>
    simp [forecast, terms, h, Terms.greet, Callback.failure_of_done hc, Terms.proceed, hb, ht,
      Step.trace, after_after]
  | trailersStall h hc =>
    simp [forecast, terms, h, Callback.failure_of_pending hc, Step.trace, after_nil]
  | trailersFail h hc =>
    rw [forecast_finish]
    simp [forecast, terms, h, Terms.part, Callback.failure_of_failed hc, Step.trace, after]
  | @trailersDone _ _ payload h hc =>
    rw [forecast_finish]
    cases payload <;>
      simp [forecast, terms, h, Terms.part, Callback.failure_of_done hc, Step.trace, after, giving]

theorem forecast_step (h : d.Consistent) :
    d.forecast = d.step.demux.forecast.after (progress d.step.trace) :=
  forecast_transition (step_transition h) h

theorem forecast_steps (h : d.Consistent) (hs : Steps d es d') :
    d.forecast = d'.forecast.after (progress es) := by
  induction hs with
  | refl => rfl
  | tail prior ih =>
    rw [ih, forecast_step (prior.consistent h), after_after, Reading.of_append]

/-- **What a run to the end comes to**, however it is driven. -/
theorem forecast_of_finished (h : d.Consistent) (hs : Steps d es d')
    (hf : d'.phase = .finished) : d.forecast = ⟨progress es, d'.pulled⟩ := by
  rw [forecast_steps h hs, forecast, hf]
  simp [after]

theorem forecast_new (source : Transport) (onHead onTrailers : Callback) (policy : Policy) :
    (new source onHead onTrailers policy).forecast =
      Terms.course ⟨policy, onHead.failure, onTrailers.failure⟩ 0 source := rfl

/-- **Draining follows the course of the transport.**  The events that make progress are those of
the course of the transport's elements, in its order; the items are those of the course; and the
number of chunks is that of the course. -/
theorem drain_eq_course (source : Transport) (onHead onTrailers : Callback) (policy : Policy) :
    let run := (new source onHead onTrailers policy).drain
    let course := Terms.course ⟨policy, onHead.failure, onTrailers.failure⟩ 0 source.elements
    progress run.events = course.events ∧ run.value = items course.events ∧
      run.demux.pulled = course.pulled ∧ run.demux.isFinished := by
  intro run course
  have hd := consistent_new source onHead onTrailers policy
  have hf := finished_of_drain hd
  have hc : course = ⟨progress run.events, run.demux.pulled⟩ := by
    rw [← forecast_of_finished hd (steps_drain _) hf, forecast_new]
    exact Terms.course_elements _ _ _
  refine ⟨by rw [hc], ?_, by rw [hc], by simpa [isFinished] using hf⟩
  rw [hc, items_progress]
  exact (items_drain hd).symm

end Demux

end ResponseFraming
