import ResponseFraming.Proofs.Callbacks
import ResponseFraming.Proofs.Discipline

/-!
# Callbacks that succeed at once

With callbacks that succeed at once no poll ends while one is in flight: a demultiplexer is
`Settled` between two operations, it waits for the transport or for nothing.  So after any
operation what the callbacks have been told is what the chunks so far have to tell
(`Told`), and it is told by the time at which a consumer can know that it is due.

* `Transition.prompt`, `Transition.settled`: the step; `settled_perform` is the same for
  a whole operation.
* `told_transition`, `told_run`: the step and the run.
* `told_record`: what has been told after the operations of a session, by the state that
  they leave.
-/

namespace ResponseFraming

def headOf (events : List Event) : Option Head := (delivered events).head?.bind (·.head)

@[simps] def completions : Reading Event Completion where
  shows? e := e.chunk?.bind (·.completion)

/-- What is told at the end agrees with the chunks: the trailers of the only complete one, or
nothing if there was none or a late head was rejected. -/
def Conclusive (events : List Event) : Option (Option Trailers) → Prop
  | some trailers => completions events = [⟨trailers⟩] ∧ ∀ e, .error e ∉ items events
  | none => completions events = [] ∨ Rejected events

variable {es : List Event}

theorem completions_of_delivered (h : delivered es = []) : completions es = [] :=
  Reading.of_eq_nil.mpr fun e he => by
    have hnone : e.chunk? = none := Reading.of_eq_nil.mp h e he
    rw [completions_shows?, hnone, Option.bind_none]

theorem mem_completions {completion : Completion} :
    completion ∈ completions es ↔ ∃ c ∈ delivered es, c.completion = some completion := by
  simp only [Reading.mem_of, completions_shows?, delivered_shows?, Option.bind_eq_some_iff]
  constructor
  · rintro ⟨e, he, c, hc, h⟩
    exact ⟨c, ⟨e, he, hc⟩, h⟩
  · rintro ⟨c, ⟨e, he, hc⟩, h⟩
    exact ⟨e, he, c, hc, h⟩

theorem headOf_append (h : delivered es ≠ []) (fs : List Event) :
    headOf (es ++ fs) = headOf es := by
  rw [headOf, headOf, Reading.of_append, List.head?_append]
  cases hd : delivered es with
  | nil => exact absurd hd h
  | cons c cs => rfl

/-- What is told stays conclusive when nothing more comes or is given. -/
theorem Conclusive.append {told : Option (Option Trailers)} (h : Conclusive es told)
    {fs : List Event} (hd : delivered fs = []) (hi : items fs = []) :
    Conclusive (es ++ fs) told := by
  have hc : completions (es ++ fs) = completions es := by
    rw [Reading.of_append, completions_of_delivered hd, List.append_nil]
  cases told with
  | some trailers =>
    rw [Conclusive, hc, Reading.of_append, hi, List.append_nil]
    exact h
  | none =>
    rw [Conclusive, hc]
    rcases h with h | ⟨c, n, h⟩
    · exact .inl h
    · exact .inr ⟨c, n, h.append fs⟩

namespace Demux

variable {d d' : Demux}

/-! ## Between two operations -/

def inFlight (d : Demux) : Option Callback :=
  match d.phase with
  | .announcing callback _ | .closing callback _ => some callback
  | _ => none

/-- Every callback succeeds at once. -/
def Prompt (d : Demux) : Prop :=
  ∀ callback, d.onHead = some callback ∨ d.onTrailers = some callback ∨
    d.inFlight = some callback → callback = .immediate

/-- The transport or nothing is waited for: no callback is in flight. -/
def Settled (d : Demux) : Prop := d.Pulling ∨ d.phase = .finished

theorem prompt_new (source : Transport) (policy : Policy) :
    (new source .immediate .immediate policy).Prompt := by
  rintro callback (h | h | h)
  · exact (Option.some.inj h).symm
  · exact (Option.some.inj h).symm
  · cases h

theorem prompt_finish (d : Demux) : d.finish.Prompt := by
  rintro callback (h | h | h) <;> cases h

theorem Prompt.done {callback callback' : Callback} {reply : Callback.Reply} (hp : d.Prompt)
    (hf : d.inFlight = some callback) (hc : callback.poll = (reply, callback')) :
    reply = .done := by
  rw [hp callback (.inr (.inr hf))] at hc
  exact (congrArg Prod.fst hc).symm

theorem inFlight_of_announcing {callback : Callback} {body : Body}
    (h : d.phase = .announcing callback body) : d.inFlight = some callback := by
  rw [inFlight, h]

theorem inFlight_of_closing {callback : Callback} {payload : Option Bytes}
    (h : d.phase = .closing callback payload) : d.inFlight = some callback := by
  rw [inFlight, h]

theorem Transition.prompt {s : Step} (h : Transition d s) (hp : d.Prompt) : s.demux.Prompt := by
  cases h with
  | idle | stall => exact hp
  | fail | exhaust | truncate | reject | headFail | trailersFail | trailersDone =>
    exact prompt_finish _
  | announce h hs hh hc =>
    rintro callback (hcb | hcb | hcb)
    · cases hcb
    · exact hp callback (.inr (.inl hcb))
    · exact Option.some.inj hcb ▸ hp _ (.inl hc)
  | deliver =>
    rintro callback (hcb | hcb | hcb)
    · cases hcb
    · exact hp callback (.inr (.inl hcb))
    · cases hcb
  | close h hs hh hc ht =>
    rintro callback (hcb | hcb | hcb)
    · cases hcb
    · cases hcb
    · exact Option.some.inj hcb ▸ hp _ (.inr (.inl ht))
  | headStall h hc => cases hp.done (inFlight_of_announcing h) hc
  | headDeliver =>
    rintro callback (hcb | hcb | hcb)
    · exact hp callback (.inl hcb)
    · exact hp callback (.inr (.inl hcb))
    · cases hcb
  | headClose h hc hb ht =>
    rintro callback (hcb | hcb | hcb)
    · exact hp callback (.inl hcb)
    · cases hcb
    · exact Option.some.inj hcb ▸ hp _ (.inr (.inl ht))
  | trailersStall h hc => cases hp.done (inFlight_of_closing h) hc

theorem Run.prompt (h : Run d es d') (hd : d.Consistent) (hp : d.Prompt) : d'.Prompt := by
  induction h with
  | refl => exact hp
  | step prior ih => exact (step_transition (prior.consistent hd)).prompt ih
  | configure _ policy ih => exact ih

/-- **A step that answers leaves no callback in flight.** -/
theorem Transition.settled {s : Step} {answer : Answer} (h : Transition d s) (hp : d.Prompt)
    (hv : s.value = some answer) : s.demux.Settled := by
  cases h with
  | idle h => exact .inr h
  | stall h => exact .inl h
  | fail | exhaust | truncate | reject | headFail | trailersFail | trailersDone => exact .inr rfl
  | deliver | headDeliver => exact .inl (.inr rfl)
  | announce | close | headClose => cases hv
  | headStall h hc => cases hp.done (inFlight_of_announcing h) hc
  | trailersStall h hc => cases hp.done (inFlight_of_closing h) hc

theorem settled_poll (hd : d.Consistent) (hp : d.Prompt) : d.poll.demux.Settled := by
  induction d using poll_induction with
  | answer d a hs =>
    rw [poll_of_answer hs]
    exact (step_transition hd).settled hp hs
  | go d hs ih =>
    rw [poll_of_none hs]
    exact ih hd.step ((step_transition hd).prompt hp)

theorem settled_next (hd : d.Consistent) (hp : d.Prompt) : d.next.demux.Settled := by
  induction d using next_induction with
  | ready d h =>
    rw [next_of_ready h]
    exact settled_poll hd hp
  | pending d h ih =>
    rw [next_of_pending h]
    have hr := (steps_poll d).run
    exact ih (hr.consistent hd) (hr.prompt hd hp)

/-- What an operation finds and what it leaves. -/
structure AtRest (d : Demux) : Prop where
  consistent : d.Consistent
  prompt : d.Prompt
  settled : d.Settled

theorem atRest_new (source : Transport) (policy : Policy) :
    (new source .immediate .immediate policy).AtRest :=
  ⟨consistent_new _ _ _ _, prompt_new source policy, .inl (.inl rfl)⟩

theorem Run.atRest (h : Run d es d') (hd : d.AtRest) (hs : d'.Settled) : d'.AtRest :=
  ⟨h.consistent hd.consistent, h.prompt hd.consistent hd.prompt, hs⟩

/-- **No operation ends with a callback in flight.** -/
theorem settled_perform (d : Demux) (operation : Operation) (hd : d.AtRest) :
    (∃ d', (d.perform operation).demux = some d' ∧ Run d (d.perform operation).events d' ∧
      d'.AtRest) ∨
    ((d.perform operation).demux = none ∧ ∃ es d', Run d es d' ∧ d'.AtRest ∧
      (d.perform operation).events = es ++ d'.releases) := by
  have hc := hd.consistent
  have hp := hd.prompt
  cases operation with
  | poll =>
    have hr := (steps_poll d).run
    exact .inl ⟨_, rfl, hr, hr.atRest hd (settled_poll hc hp)⟩
  | next =>
    have hr := (steps_next d).run
    exact .inl ⟨_, rfl, hr, hr.atRest hd (settled_next hc hp)⟩
  | drain =>
    have hr := (steps_drain d).run
    exact .inl ⟨_, rfl, hr, hr.atRest hd (.inr (finished_of_drain hc))⟩
  | collect =>
    have hr := (steps_gather d).run
    exact .inr ⟨rfl, _, _, hr, hr.atRest hd (.inr (finished_of_gather hc)), rfl⟩
  | drop => exact .inr ⟨rfl, [], d, .refl d, hd, rfl⟩
  | configure policy =>
    have hr := (Run.refl d).configure policy
    exact .inl ⟨_, rfl, hr, hr.atRest hd hd.settled⟩

/-! ## What has been told -/

/-- The calls and releases so far, and what is left to tell of the chunks, for each phase. -/
def Told (d : Demux) (events : List Event) : Prop :=
  match d.phase with
  | .opening => calls events = [] ∧ delivered events = []
  | .announcing _ body =>
    calls events = [headUse (headOf events)] ∧ delivered events ≠ [] ∧
      completions events = body.completion.toList
  | .streaming =>
    calls events = [headUse (headOf events)] ∧ delivered events ≠ [] ∧ completions events = []
  | .closing .. =>
    ∃ trailers, calls events = [headUse (headOf events), trailersUse (some trailers)] ∧
      completions events = [⟨trailers⟩]
  | .finished =>
    ∃ told, calls events = [headUse (headOf events), trailersUse told] ∧ Conclusive events told

theorem Told.with_releases (h : d.Told es) (hd : d.Consistent) (hp : d.Pulling) :
    calls es ++ d.releases = [headUse (headOf es), trailersUse none] ∧ completions es = [] := by
  rcases hp with hp | hp <;> simp only [Told, Consistent, hp] at h hd
  · simp [h, hd, releases, headOf, completions_of_delivered h.2, headUse, trailersUse]
  · simp [h, hd, releases, trailersUse]

theorem Told.with_headNotes (h : d.Told es) (hp : d.Pulling) {c : Chunk} (hh : d.Passes c)
    {fs : List Event} (hf : delivered fs = [c]) :
    calls es ++ calls (d.headNotes c) = [headUse (headOf (es ++ fs))] ∧ completions es = [] := by
  rcases hp with hp | hp <;> simp only [Told, hp] at h
  · have hc : c.head = none := by simpa [Passes, hp] using hh
    simp [h, hf, headNotes, hp, headOf, completions_of_delivered h.2, hc, headUse]
  · obtain ⟨hcalls, hn, hcomp⟩ := h
    have hnotes : calls (d.headNotes c) = [] := by
      cases hc : c.head <;> simp [headNotes, hp, hc]
    rw [hcalls, hnotes, headOf_append hn]
    exact ⟨rfl, hcomp⟩

/-- A stream that ends while it waits for the transport releases what has not been called. -/
theorem Told.released (h : d.Told es) (hd : d.Consistent) (hp : d.Pulling)
    (hf : d'.phase = .finished) {fs : List Event} (hc : calls fs = d.releases)
    (hn : delivered fs = []) : d'.Told (es ++ fs) := by
  obtain ⟨hcalls, hcomp⟩ := h.with_releases hd hp
  simp only [Told, hf]
  refine ⟨none, ?_, .inl ?_⟩
  · rw [Reading.of_append, hc, hcalls, headOf, headOf, Reading.of_append, hn, List.append_nil]
  · rw [Reading.of_append, hcomp, completions_of_delivered hn]
    rfl

/-- **The step of the invariant.** -/
theorem told_transition {s : Step} (h : Transition d s) (hd : d.Consistent) (hp : d.Prompt)
    (hi : d.phase ≠ .finished → ∀ e, .error e ∉ items es) (ht : d.Told es) :
    s.demux.Told (es ++ s.trace) := by
  cases h with
  | idle h =>
    simp only [Told, h] at ht ⊢
    obtain ⟨told, hcalls, hc⟩ := ht
    refine ⟨told, ?_, hc.append (by simp [Step.trace]) (by simp [Step.trace])⟩
    simpa [Step.trace, headOf] using hcalls
  | stall h =>
    rcases h with h | h <;> simpa [Told, h, Step.trace, headOf] using ht
  | fail h => exact ht.released hd h rfl (by simp [Step.trace]) (by simp [Step.trace])
  | exhaust h => exact ht.released hd h rfl (by simp [Step.trace]) (by simp [Step.trace])
  | truncate h => exact ht.released hd h rfl (by simp [Step.trace]) (by simp [Step.trace])
  | @reject _ c h =>
    have hcalls := (ht.with_releases hd (.inr h)).1
    simp only [Told, h] at ht
    refine ⟨none, ?_, .inr ⟨c, d.pulled + 1, ?_⟩⟩
    · rw [headOf_append ht.2.1, ← hcalls]
      simp [Step.trace]
    · rw [Fault.Struck, Reading.of_append]
      exact List.infix_append_of_infix_right (by simp [Step.trace])
  | @announce _ c head _ h hs hh =>
    simp only [Told, h] at ht
    refine ⟨?_, ?_, ?_⟩
    · simp [ht, Step.trace, headOf, hh, headUse]
    · simp [Step.trace]
    · simp [completions_of_delivered ht.2, Step.trace, Chunk.facets]
  | @deliver _ c h hs hh hc =>
    rw [Step.trace_giving]
    have hf : delivered ([.transportPolled (.chunk c), .log (.pulled (d.pulled + 1) c.shape)] ++
        d.headNotes c ++ d.skipNotes c.payload? ++ yieldNotes c.payload? ++ giving c.payload?) =
        [c] := by simp
    obtain ⟨hcalls, hcomp⟩ := ht.with_headNotes h hh hf
    refine ⟨?_, ?_, ?_⟩
    · rw [← hcalls]
      simp
    · simp
    · rw [Reading.of_append, hcomp]
      simp [hc]
  | @close _ c completion _ h hs hh hc =>
    have hf : delivered ([.transportPolled (.chunk c), .log (.pulled (d.pulled + 1) c.shape)] ++
        d.headNotes c ++ [.log (.callingTrailers completion.trailers.isSome),
          .trailersCalled completion.trailers]) = [c] := by simp
    obtain ⟨hcalls, hcomp⟩ := ht.with_headNotes h hh hf
    refine ⟨completion.trailers, ?_, ?_⟩
    · simp [Step.trace, trailersUse, ← List.append_assoc, hcalls]
    · rw [Reading.of_append, hcomp]
      simp [Step.trace, hc]
  | headStall h hc => cases hp.done (inFlight_of_announcing h) hc
  | headFail h hc => cases hp.done (inFlight_of_announcing h) hc
  | headDeliver h hc hb =>
    rw [Step.trace_giving]
    simp only [Told, h] at ht
    obtain ⟨hcalls, hn, hcomp⟩ := ht
    refine ⟨?_, ?_, ?_⟩
    · rw [headOf_append hn, ← hcalls]
      simp
    · simp [hn]
    · rw [Reading.of_append, hcomp, hb]
      simp
  | @headClose _ _ _ _ completion h hc hb =>
    simp only [Told, h] at ht
    obtain ⟨hcalls, hn, hcomp⟩ := ht
    refine ⟨completion.trailers, ?_, ?_⟩
    · rw [headOf_append hn, Reading.of_append, hcalls]
      rfl
    · rw [Reading.of_append, hcomp, hb]
      rfl
  | trailersStall h hc => cases hp.done (inFlight_of_closing h) hc
  | trailersFail h hc => cases hp.done (inFlight_of_closing h) hc
  | @trailersDone _ _ payload h =>
    have hno := hi (by simp [h])
    simp only [Told, h] at ht
    obtain ⟨trailers, hcalls, hcomp⟩ := ht
    refine ⟨some trailers, ?_, ?_, fun e he => ?_⟩
    · simpa [Step.trace, headOf] using hcalls
    · rw [Reading.of_append, hcomp]
      simp [Step.trace]
    · rw [Reading.of_append, List.mem_append] at he
      rcases he with he | he
      · exact hno e he
      · cases payload <;> simp [Step.trace] at he

theorem told_run (h : Run d es d') (hd : d.Consistent) (hp : d.Prompt)
    (hopen : d.phase = .opening) : d'.Told es := by
  induction h with
  | refl => simp [Told, hopen]
  | step prior ih =>
    have hc := prior.consistent hd
    have hs := standing_run prior hd (standing_of_opening hopen)
    refine told_transition (step_transition hc) hc (prior.prompt hd hp) (fun hf => ?_) ih
    simpa only [items_acts] using (hs.unfailed hf).2.2
  | configure _ policy ih => exact ih

/-! ## Sessions -/

theorem Transition.not_answered {s : Step} (h : Transition d s) (answer : Answer) :
    .answered answer ∉ s.events := by
  rw [← mem_acts s.events rfl]
  cases h <;> simp

theorem Run.finished_of_answered {answer : Answer} (h : Run d es d') (hd : d.Consistent)
    (hm : .answered answer ∈ es) (ha : answer.IsLast) : d'.phase = .finished := by
  induction h with
  | refl => cases hm
  | @step d₁ fs prior ih =>
    have ht := step_transition (prior.consistent hd)
    rcases List.mem_append.mp hm with hm | hm
    · rw [step_of_finished (ih hm)]
      exact ih hm
    · rw [Step.trace, List.mem_append] at hm
      rcases hm with hm | hm
      · exact absurd hm (ht.not_answered answer)
      · obtain ⟨a, hv, he⟩ := Option.map_eq_some_iff.mp (Option.mem_toList.mp hm)
        cases he
        exact ht.finished_of_last hv ha
  | configure _ policy ih => exact ih hm

/-- **What has been told after some operations**: nothing before the first chunk, of the head then,
and of the trailers when the stream is over or has been given up. -/
theorem told_record (source : Transport) (policy : Policy) (operations : List Operation) :
    let start := some (new source .immediate .immediate policy)
    let events := record start operations
    (∃ d, remaining start operations = some d ∧ d.phase = .opening ∧ d.pulled = 0 ∧
      calls events = [] ∧ delivered events = []) ∨
    (∃ d, remaining start operations = some d ∧ d.phase = .streaming ∧ 0 < d.pulled ∧
      calls events = [headUse (headOf events)] ∧ completions events = []) ∨
    ((∀ d, remaining start operations = some d → d.phase = .finished) ∧
      ∃ told, calls events = [headUse (headOf events), trailersUse told] ∧
        Conclusive events told) := by
  intro start events
  have hnew := atRest_new source policy
  obtain ⟨es, d, hrun, ⟨hd, -, hs⟩, hend⟩ := run_record_of settled_perform hnew operations
  have ht := told_run hrun hnew.consistent hnew.prompt rfl
  rcases hend with ⟨hr, he⟩ | ⟨hr, he⟩
  · obtain rfl : events = es := he
    rcases hs with (hp | hp) | hp <;> simp only [Told, Consistent, hp] at ht hd
    · exact .inl ⟨d, hr, hp, hd.2.2, ht⟩
    · exact .inr (.inl ⟨d, hr, hp, hd.2.2, ht.1, ht.2.2⟩)
    · refine .inr (.inr ⟨fun d' hd' => ?_, ht⟩)
      rwa [Option.some.inj (hd'.symm.trans hr)]
  · -- The demultiplexer was given up: what was left to tell has been released.
    have hfinished : d.finish.Told (es ++ d.releases) := by
      rcases hs with hp | hp
      · exact ht.released hd hp rfl (calls_releases d) (Reading.of_releases rfl rfl d)
      · simp only [Told, Consistent, hp] at ht hd
        have hn : d.releases = [] := by simp [releases, hd]
        rw [hn, List.append_nil]
        exact ht
    have hevents : events = es ++ d.releases := he
    rw [hevents]
    refine .inr (.inr ⟨fun d' hd' => ?_, hfinished⟩)
    cases hr.symm.trans hd'

end Demux

end ResponseFraming
