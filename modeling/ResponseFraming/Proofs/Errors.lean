import ResponseFraming.Proofs.Callbacks
import ResponseFraming.Proofs.Conservation

/-!
# Errors

A stream gives one error at most, and that is the error of a fault.  `Fault` has
what a poll gives at a fault and `FailedAt` what a run is that failed; here it is
said what of the response is lost with it.

* `FailedAt.stopped`: a failed run gave nothing more, has used both callbacks, and
  nothing of the chunk at fault was delivered.
* `errors_transition`: under a lenient policy a step gives the error of a failure
  that it met, and none else.
* `finished_transition`: under a strict policy a step ends the stream with an error or
  upon the trailers.
-/

namespace ResponseFraming

@[simp] def Item.error? : Item → Option StreamError
  | .payload _ => none
  | .error e => some e

/-- The failure of the transport or of a callback that is met with an event. -/
@[simp] def Event.failure? : Event → Option StreamError
  | .transportPolled (.failed e) | .headPolled (.failed e) | .trailersPolled (.failed e) => some e
  | _ => none

@[simps] def errors : Reading Item StreamError := ⟨Item.error?⟩

@[simps] def failures : Reading Event StreamError := ⟨Event.failure?⟩

@[simp] theorem errors_map (bs : List Bytes) : errors (bs.map .payload) = [] :=
  Reading.of_eq_nil.mpr (by simp)

@[simp] theorem errors_given (payload : Option Bytes) :
    errors (payload.map Item.payload).toList = [] := by cases payload <;> rfl

theorem failures_acts (es : List Event) : failures (acts es) = failures es :=
  of_acts (fun e he => by cases e <;> simp_all) es

theorem map_payloads {is : List Item} (h : ∀ e, .error e ∉ is) :
    (payloads is).map .payload = is := by
  induction is with
  | nil => rfl
  | cons i is ih =>
    have hrest := ih fun e he => h e (List.mem_cons_of_mem _ he)
    cases i with
    | payload bytes => simp [hrest]
    | error e => exact absurd List.mem_cons_self (h e)

theorem Fault.Arises.two_le {c : Chunk} {policy : Policy} {before : List Event}
    (h : (Fault.lateHead c).Arises policy before) (after : List Event) :
    2 ≤ (delivered (before ++ (Fault.lateHead c).poll :: after)).length := by
  have hpos := List.length_pos_iff.mpr h.2.2
  simp only [Fault.poll, Reading.of_append, Reading.of_cons, delivered_shows?, Event.chunk?,
    Option.toList_some, List.length_append, List.length_singleton]
  omega

namespace Demux

variable {d d' d₁ : Demux} {es before rest : List Event} {f : Fault} {e : StreamError}

/-! ## What an error costs -/

theorem Standing.awaits_of_called (h : d.Standing es) (hp : d.phase ≠ .finished)
    (hc : .trailers ∈ called es) : d.awaits = some .trailers := by
  cases hd : d.phase with
  | opening => simp_all [Standing]
  | announcing => simp_all [Standing]
  | streaming =>
    simp only [Standing, hd] at h
    rw [h.1] at hc
    simpa using h.2.1 hc
  | closing => simp [awaits, hd]
  | finished => exact absurd hd hp

theorem FailedAt.called_eq (h : FailedAt d d₁ es before rest f e) : called es = called before := by
  rw [h.shown rfl called_acts]
  cases f <;> simp

/-- The trailers of a failed run did not reach the end of their callback, which was not even called
unless it is at fault itself. -/
theorem FailedAt.trailers_untold (h : FailedAt d d₁ es before rest f e) (hd : d.Consistent)
    (hp : d.phase = .opening) :
    (.trailers ∈ called es → ∃ e, f = .trailers e) ∧ .trailersPolled .done ∉ es := by
  have hs := standing_run h.run hd (standing_of_opening hp)
  constructor
  · intro hc
    rw [h.called_eq, ← called_acts] at hc
    have ha := h.awaits_eq.symm.trans (hs.awaits_of_called h.live hc)
    cases f with
    | trailers e => exact ⟨e, rfl⟩
    | _ => cases ha
  · intro hm
    have hm := (mem_acts es rfl).mpr hm
    rw [h.acts_eq, List.mem_append, List.mem_cons, List.mem_cons] at hm
    rcases hm with hm | hm | hm | hm
    · have hr : .trailers ∈ resolved (acts before) := Reading.mem_of.mpr ⟨_, hm, rfl⟩
      simpa using (hs.unfailed h.live).1 hr
    · cases f <;> cases hm
    · cases hm
    · cases h.rest_eq _ hm

/-- What became of a response that failed. -/
structure Stopped (d : Demux) (events : List Event) (given : List Item) (f : Fault)
    (e : StreamError) : Prop where
  /-- The chunks that passed the fault were given, then the error. -/
  given_eq : given = (contents (f.passed (delivered events))).map .payload ++ [.error e]
  error_eq : f.error d.pulled = e
  late : ∀ c, f = .lateHead c → 2 ≤ d.pulled
  /-- Each callback was called or released, and none of them twice. -/
  used : ∃ head trailers, calls events = [headUse head, trailersUse trailers]
  /-- The trailer callback was not called, unless it is at fault itself. -/
  uncalled : .trailers ∈ called events → ∃ e, f = .trailers e
  /-- The trailers were not delivered: their callback did not come to its end. -/
  untold : .trailersPolled .done ∉ events
  idle : ∀ later, ∀ r ∈ session (some d) later, r.Idle d

/-- **What a failed run comes to.** -/
theorem FailedAt.stopped (h : FailedAt d d₁ es before rest f e) (hrun : Run d es d')
    (hd : d.Consistent) (hp : d.phase = .opening) (he : f.error d'.pulled = e)
    (hf : d'.phase = .finished) : d'.Stopped es (items es) f e := by
  have hs := standing_run h.run hd (standing_of_opening hp)
  have hbefore : ∀ e, .error e ∉ items before := by
    simpa only [items_acts] using (hs.unfailed h.live).2.2
  have hpayloads := h.payloads_eq hd hp
  rw [h.items_eq, Reading.of_append] at hpayloads
  have hused := used_run hrun hd (by simp [Used, hp])
  obtain ⟨hcall, htold⟩ := h.trailers_untold hd hp
  exact
    { given_eq := by
        rw [h.items_eq, ← hpayloads, Reading.of_cons, Reading.of_nil, List.append_nil]
        simp [map_payloads hbefore]
      error_eq := he
      late := by
        rintro c rfl
        rw [(balance_run hrun hd hp).1, h.delivered_eq]
        simpa using h.arises.two_le []
      used := by simpa only [Used, hf] using hused
      uncalled := hcall
      untold := htold
      idle := session_of_finished (hrun.consistent hd) hf }

/-! ## Policies -/

/-- **Under a lenient policy the errors of a step are the failures that it meets.** -/
theorem errors_transition {s : Step} (h : Transition d s) (ht : d.policy.truncation = .lenient)
    (hl : d.policy.lateHead = .ignore) : errors (items s.trace) = failures s.trace := by
  rw [← items_acts, ← failures_acts]
  cases h with
  | truncate _ _ hp => simp [ht] at hp
  | reject _ _ _ hp => simp [hl] at hp
  | deliver | headDeliver => rw [Step.trace_giving]; simp
  | @trailersDone _ _ payload => cases payload <;> simp [Step.trace]
  | _ => simp [Step.trace]

/-- **Under a strict policy a step that ends the stream without an error does so upon the
trailers.** -/
theorem finished_transition {s : Step} (h : Transition d s) (hd : d.phase ≠ .finished)
    (ht : d.policy.truncation = .strict) (hf : s.demux.phase = .finished)
    (hn : errors (items s.trace) = []) : .trailersPolled .done ∈ s.trace := by
  cases h with
  | idle h => exact absurd h hd
  | exhaust _ _ hp => simp [ht] at hp
  | fail | truncate | reject | headFail | trailersFail => simp [Step.trace] at hn
  | trailersDone => simp [Step.trace]
  | _ => simp_all [Pulling]

/-! ## Sessions -/

section Session

variable {start : Demux} {operations : List Operation} (hs : start.Consistent)
  (h : remaining (some start) operations = some d)

include hs h

theorem errors_of_lenient
    (hp : ∀ p ∈ policies start.policy operations, p.truncation = .lenient ∧ p.lateHead = .ignore) :
    errors (items (record (some start) operations)) =
      failures (record (some start) operations) := by
  let I (_ : Demux) (es : List Event) : Prop := errors (items es) = failures es
  have hstart : I start [] := rfl
  refine session_invariant ?_ (fun _ _ _ ih => ih) hs hp hstart h
  intro d es hd ⟨ht, hl⟩ (ih : errors (items es) = failures es)
  show errors (items (es ++ d.step.trace)) = failures (es ++ d.step.trace)
  rw [Reading.of_append, Reading.of_append, Reading.of_append, ih,
    errors_transition (step_transition hd) ht hl]

theorem trailers_of_strict (hopen : start.phase = .opening)
    (hp : ∀ p ∈ policies start.policy operations, p.truncation = .strict)
    (hf : d.phase = .finished) (hn : errors (items (record (some start) operations)) = []) :
    .trailersPolled .done ∈ record (some start) operations := by
  let I (d : Demux) (es : List Event) : Prop :=
    d.phase = .finished → errors (items es) = [] → .trailersPolled .done ∈ es
  have hstart : I start [] := fun hf => by rw [hopen] at hf; cases hf
  refine session_invariant ?_ (fun _ _ _ ih => ih) hs hp hstart h hf hn
  intro d es hd ht ih hf hn
  rw [Reading.of_append, Reading.of_append, List.append_eq_nil_iff] at hn
  rw [List.mem_append]
  by_cases hp : d.phase = .finished
  · exact .inl (ih hp hn.1)
  · exact .inr (finished_transition (step_transition hd) hp ht hf hn.2)

end Session

theorem two_le_of_lateHead {c : Chunk} (h : Run d es d') (hd : d.Consistent)
    (hp : d.phase = .opening) (hf : (Fault.lateHead c).In d'.policy es d'.poll.events) :
    2 ≤ d'.poll.demux.pulled := by
  obtain ⟨pre, post, he, harises⟩ := hf
  rw [(balance_run (h.append_steps (steps_poll d')) hd hp).1, he, ← List.append_assoc]
  exact harises.two_le post

/-- **Errors are given for faults, and every fault gives its error.**

In any state that a session reaches: an error that was given was that of a fault, which arose under
the policy then in force, and it was the last of the stream (`FailedAt`, `Stopped`).  The next poll
gives an error exactly if a fault arises among its events under the policy in force, and that is the
policy that was set last; no two faults arise among them.  Under policies that let the stream go on
at every fault of framing, the errors are the failures of the transport and of the callbacks; under
such as insist on a complete chunk, a stream that ended without an error ended upon the trailers. -/
theorem errors_at_faults (source : Transport) (onHead onTrailers : Callback) (policy : Policy)
    (operations : List Operation) (d : Demux)
    (h : remaining (some (new source onHead onTrailers policy)) operations = some d) :
    let start := new source onHead onTrailers policy
    let events := record (some start) operations
    let given := received (some start) operations
    (∀ e, .error e ∈ given → ∃ d₁ before rest f,
      FailedAt start d₁ events before rest f e ∧ d.Stopped events given f e) ∧
    (d.policy = inForce policy operations ∧
      (∀ e, d.poll.value = .item (.error e) ↔
        ∃ f : Fault, f.In d.policy events d.poll.events ∧ f.error d.poll.demux.pulled = e) ∧
      (∀ f g : Fault, f.In d.policy events d.poll.events → g.In d.policy events d.poll.events →
        f = g) ∧
      ∀ c, (Fault.lateHead c).In d.policy events d.poll.events → 2 ≤ d.poll.demux.pulled) ∧
    ((∀ p ∈ policies policy operations, p.truncation = .lenient ∧ p.lateHead = .ignore) →
      errors given = failures events) ∧
    ((∀ p ∈ policies policy operations, p.truncation = .strict) → d.isFinished →
      errors given = [] → .trailersPolled .done ∈ events) := by
  intro start events given
  have hnew : start.Consistent := consistent_new source onHead onTrailers policy
  have hstart : start.Agrees [] := agrees_new source onHead onTrailers policy
  obtain ⟨hrun, hgiven, hpolicy⟩ := run_of_remaining hnew h
  replace hgiven : given = items events := hgiven
  have hd := hrun.consistent hnew
  obtain ⟨hiff, hunique⟩ := error_poll hd (agrees_run hrun hnew hstart).2
  rw [hgiven]
  refine ⟨?_, ⟨hpolicy, hiff, hunique, fun c => two_le_of_lateHead hrun hnew rfl⟩,
    errors_of_lenient hnew h, fun hp hf => trailers_of_strict hnew h rfl hp (of_decide_eq_true hf)⟩
  intro e he
  obtain ⟨d₁, before, rest, f, hf, hn, hp⟩ := hrun.of_error hnew hstart he
  exact ⟨d₁, before, rest, f, hf, hf.stopped hrun hnew rfl hn hp⟩

/-- A late head that is rejected, since the policy was set while the head callback was pending. -/
theorem errors_at_faults_configured :
    let first := (Chunk.ofPayload [104]).withHead ⟨200, .empty⟩
    let start := new [.chunk first, .chunk first, .ended] ⟨1, none⟩ .immediate .default
    let operations : List Operation := [.poll, .configure .strict, .poll]
    let e : StreamError := .framing (.lateHead 2)
    let d : Demux := ⟨[.chunk first, .ended], none, some .immediate, .strict, .streaming, 1⟩
    let stopped : Demux := ⟨[.ended], none, none, .strict, .finished, 2⟩
    remaining (some start) operations = some d ∧ d.poll.value = .item (.error e) ∧
      (∃ f : Fault, f.In .strict (record (some start) operations) d.poll.events ∧
        f.error d.poll.demux.pulled = e) ∧
      remaining (some start) (operations ++ [.poll]) = some stopped ∧
      ∃ f, stopped.Stopped (record (some start) (operations ++ [.poll]))
        (received (some start) (operations ++ [.poll])) f e := by
  intro first start operations e d stopped
  have hd : remaining (some start) operations = some d := by decide +kernel
  have hs : remaining (some start) (operations ++ [.poll]) = some stopped := by decide +kernel
  have hv : d.poll.value = .item (.error e) := by decide +kernel
  obtain ⟨-, ⟨-, hiff, -⟩, -⟩ := errors_at_faults _ _ _ _ operations d hd
  obtain ⟨hstop, -⟩ := errors_at_faults _ _ _ _ (operations ++ [.poll]) stopped hs
  obtain ⟨-, -, -, f, -, hf⟩ := hstop e (by decide +kernel)
  exact ⟨hd, hv, (hiff e).mp hv, hs, f, hf⟩

end Demux

end ResponseFraming
