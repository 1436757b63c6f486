import ResponseFraming.Proofs.Session

/-!
# The use of the callbacks

Each callback is used once: it is called, or it is released without a call.  The
head callback is there up to the first chunk, the trailer callback up to the first
complete one (`Consistent`), and what is still there when the stream ends is
released then, the head callback first.

* `Used`: the calls and releases so far, for each phase; `used_transition` is the step.
* `stepBy_eq_step`: no step that is reached acts on a complete chunk without a trailer
  callback, so it makes no difference what `advance` does with one.
-/

namespace ResponseFraming

/-- The use of the head callback: a call with a head, or its release. -/
def headUse (head : Option Head) : Event := head.elim .headReleased .headCalled

/-- The use of the trailer callback: a call with what trailers there are, or its release. -/
def trailersUse (trailers : Option (Option Trailers)) : Event :=
  trailers.elim .trailersReleased .trailersCalled

namespace Demux

variable {d d' : Demux} {es : List Event}

/-! ## What is called and released -/

@[simp] theorem calls_releases (d : Demux) : calls d.releases = d.releases := by
  unfold releases
  cases d.onHead <;> cases d.onTrailers <;> rfl

/-- The calls and releases so far. -/
def Used (d : Demux) (events : List Event) : Prop :=
  match d.phase with
  | .opening => calls events = []
  | .announcing .. => ∃ head, calls events = [.headCalled head]
  | .streaming => ∃ head, calls events = [headUse head]
  | .closing .. => ∃ head trailers, calls events = [headUse head, .trailersCalled trailers]
  | .finished => ∃ head trailers, calls events = [headUse head, trailersUse trailers]

/-- With the releases that are due each callback has been used. -/
theorem Used.with_releases (h : d.Used es) (hd : d.Consistent) :
    ∃ head trailers, calls es ++ d.releases = [headUse head, trailersUse trailers] := by
  cases hp : d.phase with
  | opening =>
    simp only [Used, Consistent, hp] at h hd
    exact ⟨none, none, by simp [h, releases, hd, headUse, trailersUse]⟩
  | announcing _ _ =>
    simp only [Used, Consistent, hp] at h hd
    obtain ⟨head, h⟩ := h
    exact ⟨some head, none, by simp [h, releases, hd, headUse, trailersUse]⟩
  | streaming =>
    simp only [Used, Consistent, hp] at h hd
    obtain ⟨head, h⟩ := h
    exact ⟨head, none, by simp [h, releases, hd, trailersUse]⟩
  | closing _ _ =>
    simp only [Used, Consistent, hp] at h hd
    obtain ⟨head, trailers, h⟩ := h
    exact ⟨head, some trailers, by simp [h, releases, hd, trailersUse]⟩
  | finished =>
    simp only [Used, Consistent, hp] at h hd
    obtain ⟨head, trailers, h⟩ := h
    exact ⟨head, trailers, by simp [h, releases, hd]⟩

theorem Used.with_headNotes (h : d.Used es) (hp : d.Pulling) (c : Chunk) :
    ∃ head, calls es ++ calls (d.headNotes c) = [headUse head] := by
  rcases hp with hp | hp <;> simp only [Used, hp] at h
  · exact ⟨none, by simp [h, headNotes, hp, headUse]⟩
  · obtain ⟨head, h⟩ := h
    exact ⟨head, by cases hc : c.head <;> simp [h, headNotes, hp, hc]⟩

/-- **The step of the invariant.** -/
theorem used_transition {s : Step} (h : Transition d s) (hd : d.Consistent) (hu : d.Used es) :
    s.demux.Used (es ++ s.trace) := by
  have hall := hu.with_releases hd
  cases h with
  | idle h => simpa [Used, h, Step.trace] using hu
  | stall h => rcases h with h | h <;> simpa [Used, h, Step.trace] using hu
  | fail h => simpa [Used, finish, Step.trace] using hall
  | exhaust h => simpa [Used, finish, Step.trace] using hall
  | truncate h => simpa [Used, finish, Step.trace] using hall
  | reject h => simpa [Used, finish, Step.trace] using hall
  | @announce _ _ head _ h =>
    simp only [Used, h] at hu
    exact ⟨head, by simp [hu, Step.trace]⟩
  | @deliver _ c h =>
    obtain ⟨head, hn⟩ := hu.with_headNotes h c
    rw [Step.trace_giving]
    exact ⟨head, by simpa using hn⟩
  | @close _ c completion _ h =>
    obtain ⟨head, hn⟩ := hu.with_headNotes h c
    exact ⟨head, completion.trailers, by simp [Step.trace, ← List.append_assoc, hn]⟩
  | headStall h => simpa [Used, h, Step.trace] using hu
  | headFail h => simpa [Used, finish, Step.trace] using hall
  | headDeliver h =>
    simp only [Used, h] at hu
    obtain ⟨head, hu⟩ := hu
    rw [Step.trace_giving]
    exact ⟨some head, by simp [hu, headUse]⟩
  | @headClose _ _ _ _ completion h =>
    simp only [Used, h] at hu
    obtain ⟨head, hu⟩ := hu
    exact ⟨some head, completion.trailers, by simp [hu, Step.trace, headUse]⟩
  | trailersStall h => simpa [Used, h, Step.trace] using hu
  | trailersFail h =>
    simp only [Used, h] at hu
    obtain ⟨head, trailers, hu⟩ := hu
    exact ⟨head, some trailers, by simp [hu, Step.trace, trailersUse]⟩
  | trailersDone h =>
    simp only [Used, h] at hu
    obtain ⟨head, trailers, hu⟩ := hu
    exact ⟨head, some trailers, by simp [hu, Step.trace, trailersUse]⟩

theorem used_run (h : Run d es d') (hd : d.Consistent) (hu : d.Used []) : d'.Used es := by
  induction h with
  | refl => exact hu
  | step prior ih =>
    have hc := prior.consistent hd
    exact used_transition (step_transition hc) hc ih
  | configure _ policy ih => exact ih

/-! ## The trailer callback is never missed

Acting on a body by anything that agrees with `advance` where there is no completion or a trailer
callback gives the same steps.
-/

theorem stepBy_advance : stepBy advance = step := rfl

section

variable {act : Demux → Body → Step}
  (hact : ∀ d body, body.completion = none ∨ d.onTrailers.isSome → act d body = d.advance body)

include hact

theorem acceptBy_eq (ht : d.onTrailers.isSome) (body : Body) :
    acceptBy act d body = acceptBy advance d body := by
  rw [acceptBy, acceptBy, hact d body (.inr ht)]

theorem receiveFirstBy_eq (ht : d.onTrailers.isSome) (head : Option Head) (body : Body) :
    receiveFirstBy act d head body = receiveFirstBy advance d head body := by
  have ha : acceptBy act { d with onHead := none } body =
      acceptBy advance { d with onHead := none } body := acceptBy_eq hact (by exact ht) body
  cases hh : d.onHead <;> cases head <;> simp [receiveFirstBy, hh, ha, acceptBy_eq hact ht]

theorem receiveLaterBy_eq (ht : d.onTrailers.isSome) (head : Option Head) (body : Body) :
    receiveLaterBy act d head body = receiveLaterBy advance d head body := by
  cases head <;> cases hl : d.policy.lateHead <;>
    simp [receiveLaterBy, hl, acceptBy_eq hact ht]

theorem pullBy_eq (ht : d.onTrailers.isSome) : pullBy act d = pullBy advance d := by
  have hr : ∀ source c,
      receiveBy act { d with source } c = receiveBy advance { d with source } c := by
    intro source c
    rw [receiveBy, receiveBy, receiveFirstBy_eq hact (by exact ht),
      receiveLaterBy_eq hact (by exact ht)]
  rcases hs : d.source.poll with ⟨signal, source⟩
  cases signal <;> simp [pullBy, hs, hr]

theorem awaitHeadBy_eq (ht : d.onTrailers.isSome) (callback : Callback) (body : Body) :
    awaitHeadBy act d callback body = awaitHeadBy advance d callback body := by
  rcases hc : callback.poll with ⟨reply, callback'⟩
  cases reply <;> simp [awaitHeadBy, hc, hact d body (.inr ht)]

/-- **Nothing depends on what is done with a complete body when the trailer callback is gone**,
since the trailer callback is there whenever a body is acted upon. -/
theorem stepBy_eq_step (hd : d.Consistent) : stepBy act d = d.step := by
  cases hp : d.phase with
  | opening =>
    simp only [Consistent, hp] at hd
    simp [step, stepBy, hp, pullBy_eq hact hd.2.1]
  | streaming =>
    simp only [Consistent, hp] at hd
    simp [step, stepBy, hp, pullBy_eq hact hd.2.1]
  | announcing callback body =>
    simp only [Consistent, hp] at hd
    simp [step, stepBy, hp, awaitHeadBy_eq hact hd.2.1]
  | _ => simp [step, stepBy, hp]

end

/-! ## Sessions -/

/-- **Each callback is used once.**  The head callback is there until the first chunk and the
trailer callback until the first complete one, so that what `advance` does without a trailer
callback makes no difference to any step; and in a session that comes to an end, be it that the
stream is over or that the demultiplexer is collected or dropped, the head callback has been called
or released, after that the trailer callback, and neither of them again. -/
theorem callbacks_used_once (source : Transport) (onHead onTrailers : Callback) (policy : Policy) :
    let start := new source onHead onTrailers policy
    (∀ operations d, remaining (some start) operations = some d →
      (d.onHead.isSome ↔ d.phase = .opening) ∧
      (d.onTrailers.isSome ↔ d.phase = .opening ∨ d.phase = .streaming ∨
        ∃ callback body, d.phase = .announcing callback body)) ∧
    (∀ es d act, Run start es d →
      (∀ d body, body.completion = none ∨ d.onTrailers.isSome → act d body = d.advance body) →
        stepBy act d = d.step) ∧
    ∀ operations, (∀ d, remaining (some start) operations = some d → d.isFinished) →
      ∃ head trailers,
        calls (record (some start) operations) = [headUse head, trailersUse trailers] := by
  intro start
  have hnew : start.Consistent := consistent_new source onHead onTrailers policy
  refine ⟨fun operations d h => ?_, fun es d act hrun hact => ?_, fun operations h => ?_⟩
  · have hd := (run_of_remaining hnew h).1.consistent hnew
    cases hp : d.phase <;> simp_all [Consistent]
  · exact stepBy_eq_step hact (hrun.consistent hnew)
  · obtain ⟨es, d, hrun, hend⟩ := run_record start operations
    have hd := hrun.consistent hnew
    have hu := used_run hrun hnew (by rfl)
    rcases hend with ⟨hr, he⟩ | ⟨-, he⟩
    · have hf : d.phase = .finished := of_decide_eq_true (h d hr)
      rw [he]
      simpa only [Used, hf] using hu
    · rw [he, Reading.of_append, calls_releases]
      exact hu.with_releases hd

/-- A response that is dropped while the head callback is pending.  That a complete body without a
trailer callback might as well be an error is not seen. -/
theorem callbacks_used_once_dropped :
    let first := ((Chunk.ofPayload [104]).withHead ⟨200, .empty⟩).complete none
    let start := new [.chunk first] ⟨1, none⟩ .immediate .default
    let act (d : Demux) (body : Body) : Step :=
      if body.completion.isSome ∧ d.onTrailers.isNone then d.fail (.callback "missed")
      else d.advance body
    remaining (some start) [.poll] = some start.poll.demux ∧ ¬ start.poll.demux.onHead.isSome ∧
      stepBy act start.poll.demux = start.poll.demux.step ∧
      remaining (some start) [.poll, .drop] = none ∧
      ∃ head trailers,
        calls (record (some start) [.poll, .drop]) = [headUse head, trailersUse trailers] := by
  intro first start act
  have hact : ∀ d body, body.completion = none ∨ d.onTrailers.isSome →
      act d body = d.advance body := by
    intro d body h
    rcases h with h | h
    · simp [act, h]
    · simp [act, Option.isSome_iff_ne_none.mp h]
  obtain ⟨hheld, hstep, hused⟩ := callbacks_used_once [.chunk first] ⟨1, none⟩ .immediate .default
  have hd : remaining (some start) [.poll, .drop] = none := rfl
  refine ⟨rfl, ?_, hstep _ _ act (steps_poll start).run hact, hd, hused [.poll, .drop] ?_⟩
  · rw [(hheld [.poll] _ rfl).1]
    decide +kernel
  · intro d h
    cases hd.symm.trans h

end Demux

end ResponseFraming
