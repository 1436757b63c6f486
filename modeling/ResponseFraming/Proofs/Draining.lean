import ResponseFraming.Proofs.Conservation

/-!
# Draining and collecting

A drain is a recursion on items, and each item may take many polls and each poll many
steps.  `drain_of_step` makes it a recursion on steps, by which two drains can be
compared (`step_induction`).

Collecting a body takes the steps that draining it takes; but a drain goes on after an
error, and then has only to hear that all is over, since an error leaves nothing to wait
for (`drain_eq_gather`).  So in any state what is collected is what a drain would have
given, in one piece, or the error that it would have given.
-/

namespace ResponseFraming

def Step.given (s : Step) : List Item := (s.value.bind Answer.item?).toList

/-- A drain with one more step in front. -/
def Outcome.withStep (o : Outcome (List Item)) (s : Step) : Outcome (List Item) :=
  (o.map (s.given ++ ·)).after s.trace

namespace Demux

variable {d d' : Demux} {es : List Event}

/-! ## Drains step by step -/

theorem step_induction {motive : Demux → Prop}
    (finished : ∀ d, d.step.value = some .finished → motive d)
    (step : ∀ d, d.step.value ≠ some .finished → motive d.step.demux → motive d) (d : Demux) :
    motive d := by
  induction hw : d.weight using Nat.strongRecOn generalizing d with
  | ind w ih =>
    subst hw
    by_cases hs : d.step.value = some .finished
    · exact finished d hs
    · exact step d hs (ih _ (d.weight_step_lt (phase_ne_finished_of_step hs)) _ rfl)

theorem next_of_none (h : d.step.value = none) :
    d.next = d.step.demux.next.after d.step.events := by
  -- both sides poll again if the poll that this step belongs to is pending
  by_cases hp : d.step.demux.poll.value = .pending
  · have hd : d.poll.value = .pending := by rw [poll_of_none h]; exact hp
    rw [next_of_pending hd, next_of_pending hp, poll_of_none h]
    simp [Outcome.after]
  · have hd : d.poll.value ≠ .pending := by rw [poll_of_none h]; exact hp
    rw [next_of_ready hd, next_of_ready hp, poll_of_none h]

theorem next_of_stall (h : d.step.value = some .pending) :
    d.next = d.step.demux.next.after d.step.trace := by
  rw [next_of_pending (by rw [poll_of_answer h]), poll_of_answer h, trace_of_answer h]

theorem next_of_answer {answer : Answer} (h : d.step.value = some answer) (ha : answer ≠ .pending) :
    d.next = ⟨d.step.demux, d.step.trace, answer⟩ := by
  have hp : d.poll.value ≠ .pending := by rw [poll_of_answer h]; exact ha
  rw [next_of_ready hp, poll_of_answer h, trace_of_answer h]

theorem drain_of_next (h : d.next = d'.next.after es) : d.drain = d'.drain.after es := by
  cases hn : d'.next.value with
  | pending => exact absurd hn d'.next_ne_pending
  | finished =>
    rw [drain_of_finished (d := d) (by rw [h]; exact hn), drain_of_finished hn, h]
    rfl
  | item i =>
    rw [drain_of_item (d := d) (by rw [h]; exact hn), drain_of_item hn, h]
    simp [Outcome.after, Outcome.map]

theorem drain_of_end (h : d.step.value = some .finished) :
    d.drain = ⟨d.step.demux, d.step.trace, []⟩ := by
  have hn := next_of_answer h (by simp)
  rw [drain_of_finished (by rw [hn]), hn]

/-- **A drain takes a step and goes on.** -/
theorem drain_of_step (h : d.step.value ≠ some .finished) :
    d.drain = d.step.demux.drain.withStep d.step := by
  rcases hs : d.step.value with _ | _ | i | _
  · rw [drain_of_next (next_of_none hs), Outcome.withStep, trace_of_none hs, Step.given, hs]
    rfl
  · rw [drain_of_next (next_of_stall hs), Outcome.withStep, Step.given, hs]
    rfl
  · have hn := next_of_answer hs (by simp)
    rw [drain_of_item (i := i) (by rw [hn]), hn, Outcome.withStep, Step.given, hs]
    rfl
  · exact absurd hs h

theorem drain_of_error {s : Step} {e : StreamError} (hs : d.step = s)
    (hv : s.value = some (.item (.error e))) (hf : s.demux.phase = .finished) :
    d.drain = ⟨s.demux, s.trace ++ [.answered .finished], [.error e]⟩ := by
  rw [drain_of_step (by simp [hs, hv]), hs, drain_of_over hf]
  simp [Outcome.withStep, Outcome.after, Outcome.map, Step.given, hv]

theorem pulled_steps (h : Steps d es d') (hd : d.Consistent) :
    d'.pulled = d.pulled + (delivered es).length := by
  induction h with
  | refl => rfl
  | tail prior ih =>
    rw [pulled_transition (step_transition (prior.consistent hd)), ih, Reading.of_append,
      List.length_append, Nat.add_assoc]

/-! ## Collecting -/

/-- **A drain gathers, and then hears of the end if that was an error.** -/
theorem drain_eq_gather (h : d.Consistent) :
    d.drain =
      ⟨d.gather.demux,
        d.gather.events ++ (d.gather.value.2.map fun _ => Event.answered .finished).toList,
        d.gather.value.1.map .payload ++ (d.gather.value.2.map .error).toList⟩ := by
  induction d using drain_induction with
  | finished d hn => simp [drain_of_finished hn, gather_of_finished hn]
  | item d i hn ih =>
    cases i with
    | error e =>
      have hf := finished_of_next h (.inr ⟨e, hn⟩)
      rw [drain_of_item hn, gather_of_error hn, drain_of_over hf]
      simp [Outcome.after, Outcome.map]
    | payload bytes =>
      rw [drain_of_item hn, gather_of_payload hn, ih ((steps_next d).consistent h)]
      simp [Outcome.after, Outcome.map]

theorem releases_gather (h : d.Consistent) : d.gather.demux.releases = [] := by
  have hc := (steps_gather d).consistent h
  simp only [Consistent, finished_of_gather h] at hc
  simp [releases, hc]

theorem perform_collect (h : d.Consistent) :
    d.perform .collect =
      ⟨none, d.gather.events,
        .collected (d.gather.value.2.elim (.payload d.gather.value.1.flatten) .error)⟩ := by
  simp [perform, collect, Outcome.map, releases_gather h]

theorem payloads_drain (h : d.Consistent) : payloads d.drain.value = d.gather.value.1 := by
  rw [drain_eq_gather h]
  cases d.gather.value.2 <;> simp

theorem mem_drain_error (h : d.Consistent) (e : StreamError) :
    .error e ∈ d.drain.value ↔ d.gather.value.2 = some e := by
  rw [drain_eq_gather h]
  simp

/-- Gathering a response to its end accounts for all of its chunks, with what was given before. -/
theorem contents_gather {start : Demux} {es : List Event} (h : Run start es d)
    (hs : start.Consistent) (hp : start.phase = .opening) (he : ∀ e, .error e ∉ items es)
    (hg : d.gather.value.2 = none) :
    payloads (items es) ++ d.gather.value.1 = contents (delivered (es ++ d.gather.events)) := by
  have hd := h.consistent hs
  have hi : items d.gather.events = d.gather.value.1.map .payload := by simp [items_gather hd, hg]
  obtain ⟨-, -, hb⟩ := balance_run (h.append_steps (steps_gather d)) hs hp
  have hheld : d.gather.demux.held = none := by simp [held, finished_of_gather hd]
  rw [Reading.of_append, hi, hheld] at hb
  have hb := hb (by simpa using he)
  rw [← hb]
  simp

/-- **Collecting agrees with draining** in every state that a session reaches.

If a drain would give no error, collecting does the same as it and gives its payloads in one piece.
If it would give an error, collecting gives this error alone, and does the same as the drain but for
the answer that all is over.  What was given before the call and what is collected are together the
payloads of the response, none twice and none left out. -/
theorem collect_agrees_with_drain (source : Transport) (onHead onTrailers : Callback)
    (policy : Policy) (operations : List Operation) (d : Demux)
    (h : remaining (some (new source onHead onTrailers policy)) operations = some d) :
    let start := some (new source onHead onTrailers policy)
    let events := record start operations
    let given := received start operations
    let collected := d.perform .collect
    let drained := d.perform .drain
    ((∀ e, .error e ∉ d.drain.value) →
      collected = ⟨none, drained.events, .collected (.payload (payloads d.drain.value).flatten)⟩) ∧
    (∀ e, .error e ∈ d.drain.value →
      collected.result = .collected (.error e) ∧
        drained.events = collected.events ++ [.answered .finished]) ∧
    ((∀ e, .error e ∉ given) → ∀ bytes, collected.result = .collected (.payload bytes) →
      (payloads given).flatten ++ bytes =
        (contents (delivered (events ++ collected.events))).flatten) := by
  intro start events given collected drained
  have hnew := consistent_new source onHead onTrailers policy
  obtain ⟨hrun, hgiven, -⟩ := run_of_remaining hnew h
  replace hgiven : given = items events := hgiven
  have hd := hrun.consistent hnew
  have hcollected : collected = _ := perform_collect hd
  have hdrained : drained.events = d.drain.events := rfl
  rw [hdrained, hcollected, hgiven]
  refine ⟨fun hn => ?_, fun e he => ?_, fun he bytes hb => ?_⟩
  · have hg : d.gather.value.2 = none := by
      rw [Option.eq_none_iff_forall_ne_some]
      exact fun e he => hn e ((mem_drain_error hd e).mpr he)
    rw [payloads_drain hd, drain_eq_gather hd, hg]
    simp
  · rw [mem_drain_error hd] at he
    rw [drain_eq_gather hd, he]
    exact ⟨rfl, rfl⟩
  · cases hg : d.gather.value.2 with
    | some e => simp [hg] at hb
    | none =>
      obtain rfl : d.gather.value.1.flatten = bytes := by simpa [hg] using hb
      rw [← contents_gather hrun hnew rfl he hg, List.flatten_append]

/-- The body is collected after its first payload was given and while the trailer callback holds
back its last, once where that callback succeeds and once where it fails. -/
theorem collect_agrees_with_drain_closing :
    let first := (Chunk.ofPayload [104]).withHead ⟨200, .empty⟩
    let last := (Chunk.ofPayload [105]).complete none
    let e : StreamError := .callback "late"
    let source : Transport := [.chunk first, .chunk last]
    let start := fun failure => some (new source .immediate ⟨2, failure⟩ .default)
    let operations : List Operation := [.next, .configure .strict, .poll]
    let d : Option StreamError → Demux := fun failure =>
      ⟨[], none, none, .strict, .closing ⟨1, failure⟩ (some [105]), 2⟩
    (∀ failure ∈ [none, some e], remaining (start failure) operations = some (d failure) ∧
      received (start failure) operations = [.payload [104]]) ∧
    (∀ e, .error e ∉ (d none).drain.value) ∧
      ((d none).perform .collect).result = .collected (.payload [105]) ∧
      (contents (delivered (record (start none) operations ++
        ((d none).perform .collect).events))).flatten = [104, 105] ∧
    .error e ∈ (d (some e)).drain.value ∧
      ((d (some e)).perform .collect).result = .collected (.error e) := by
  intro first last e source start operations d
  have h : remaining (start none) operations = some (d none) := by decide +kernel
  have he : remaining (start (some e)) operations = some (d (some e)) := by decide +kernel
  have hdrain : (d none).drain.value = [.payload [105]] := by decide +kernel
  have hgiven : received (start none) operations = [.payload [104]] := by decide +kernel
  have hgiven' : received (start (some e)) operations = [.payload [104]] := by decide +kernel
  obtain ⟨hall, -, hwhole⟩ := collect_agrees_with_drain _ _ _ _ operations (d none) h
  obtain ⟨-, herror, -⟩ := collect_agrees_with_drain _ _ _ _ operations (d (some e)) he
  have hn : ∀ e, .error e ∉ (d none).drain.value := by simp [hdrain]
  have hn' : ∀ e, .error e ∉ received (start none) operations := by simp [hgiven]
  have hc : ((d none).perform .collect).result = .collected (.payload [105]) := by
    rw [hall hn, hdrain]
    rfl
  have hw := hwhole hn' [105] hc
  have hm : .error e ∈ (d (some e)).drain.value := by decide +kernel
  refine ⟨by simp [h, he, hgiven, hgiven'], hn, hc, hw.symm.trans ?_, hm, (herror e hm).1⟩
  rw [hgiven]
  rfl

end Demux

end ResponseFraming
