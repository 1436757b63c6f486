import ResponseFraming.Proofs.Reading

/-!
# Runs

`Steps d events d'` says that a number of steps leads from `d` to `d'` with
these events, answers included, and `Run d events d'` says the same where the
policy may change between two steps.  What one step preserves is carried along
`Steps` and `Run` by induction, and then holds of every way to drive a
demultiplexer, since all of them are steps:

* `steps_poll`, `steps_next`, `steps_drain`, `steps_gather`;
* `steps_record`: a session that only drives is made of steps;
* `run_record`: any session is a run, ended perhaps by the release of the callbacks.

`items_poll` and the lemmas after it say that what an operation returns is what its
events show.
-/

namespace ResponseFraming

variable {es fs : List Event}

namespace Demux

variable {d d' d'' : Demux}

theorem Transition.items_events {s : Step} (h : Transition d s) : items s.events = [] := by
  cases h <;> simp

/-! ## Steps -/

/-- A number of steps, with their events and answers. -/
inductive Steps : Demux → List Event → Demux → Prop
  | refl (d : Demux) : Steps d [] d
  | tail {d d' : Demux} {es : List Event} (prior : Steps d es d') :
      Steps d (es ++ d'.step.trace) d'.step.demux

/-- A number of steps, between which the policy may change. -/
inductive Run : Demux → List Event → Demux → Prop
  | refl (d : Demux) : Run d [] d
  | step {d d' : Demux} {es : List Event} (prior : Run d es d') :
      Run d (es ++ d'.step.trace) d'.step.demux
  | configure {d d' : Demux} {es : List Event} (prior : Run d es d') (policy : Policy) :
      Run d es (d'.configure policy)

theorem Steps.single (d : Demux) : Steps d d.step.trace d.step.demux := .tail (.refl d)

theorem Steps.trans (h : Steps d es d') (g : Steps d' fs d'') : Steps d (es ++ fs) d'' := by
  induction g with
  | refl => simpa using h
  | tail _ ih => simpa [List.append_assoc] using ih.tail

theorem Run.append_steps (h : Run d es d') (g : Steps d' fs d'') : Run d (es ++ fs) d'' := by
  induction g with
  | refl => simpa using h
  | tail _ ih => simpa [List.append_assoc] using ih.step

theorem Steps.run (h : Steps d es d') : Run d es d' := by
  simpa using (Run.refl d).append_steps h

theorem Run.trans (h : Run d es d') (g : Run d' fs d'') : Run d (es ++ fs) d'' := by
  induction g with
  | refl => simpa using h
  | step _ ih => simpa [List.append_assoc] using ih.step
  | configure _ policy ih => exact ih.configure policy

theorem Consistent.step (h : d.Consistent) : d.step.demux.Consistent :=
  (step_transition h).consistent h

theorem Run.consistent (h : Run d es d') (hd : d.Consistent) : d'.Consistent := by
  induction h with
  | refl => exact hd
  | step _ ih => exact ih.step
  | configure _ policy ih => exact ih.configure policy

theorem Steps.consistent (h : Steps d es d') (hd : d.Consistent) : d'.Consistent :=
  h.run.consistent hd

/-! ## Polls are steps -/

theorem trace_of_answer {s : Step} {answer : Answer} (h : s.value = some answer) :
    s.trace = s.events ++ [.answered answer] := by simp [Step.trace, h]

theorem trace_of_none {s : Step} (h : s.value = none) : s.trace = s.events := by
  simp [Step.trace, h]

theorem poll_induction {motive : Demux → Prop}
    (answer : ∀ d answer, d.step.value = some answer → motive d)
    (go : ∀ d, d.step.value = none → motive d.step.demux → motive d) (d : Demux) : motive d := by
  induction hw : d.weight using Nat.strongRecOn generalizing d with
  | ind w ih =>
    subst hw
    cases hs : d.step.value with
    | some a => exact answer d a hs
    | none =>
      exact go d hs (ih _ (d.weight_step_lt (phase_ne_finished_of_step (by simp [hs]))) _ rfl)

theorem next_induction {motive : Demux → Prop}
    (ready : ∀ d, d.poll.value ≠ .pending → motive d)
    (pending : ∀ d, d.poll.value = .pending → motive d.poll.demux → motive d) (d : Demux) :
    motive d := by
  induction hw : d.weight using Nat.strongRecOn generalizing d with
  | ind w ih =>
    subst hw
    by_cases hp : d.poll.value = .pending
    · exact pending d hp (ih _ (d.weight_poll_lt (by simp [hp])) _ rfl)
    · exact ready d hp

theorem next_ne_pending (d : Demux) : d.next.value ≠ .pending := by
  induction d using next_induction with
  | ready d h => rwa [next_of_ready h]
  | pending d h ih => rwa [next_of_pending h]

theorem drain_induction {motive : Demux → Prop}
    (finished : ∀ d, d.next.value = .finished → motive d)
    (item : ∀ d i, d.next.value = .item i → motive d.next.demux → motive d) (d : Demux) :
    motive d := by
  induction hw : d.weight using Nat.strongRecOn generalizing d with
  | ind w ih =>
    subst hw
    cases hn : d.next.value with
    | pending => exact absurd hn d.next_ne_pending
    | finished => exact finished d hn
    | item i => exact item d i hn (ih _ (d.weight_next_lt (by simp [hn])) _ rfl)

theorem steps_poll (d : Demux) : Steps d d.poll.events d.poll.demux := by
  induction d using poll_induction with
  | answer d a h =>
    rw [poll_of_answer h, ← trace_of_answer h]
    exact Steps.single d
  | go d h ih =>
    rw [poll_of_none h]
    have := (Steps.single d).trans ih
    rwa [trace_of_none h] at this

theorem steps_next (d : Demux) : Steps d d.next.events d.next.demux := by
  induction d using next_induction with
  | ready d h => simpa only [next_of_ready h] using steps_poll d
  | pending d h ih =>
    rw [next_of_pending h]
    exact (steps_poll d).trans ih

theorem steps_drain (d : Demux) : Steps d d.drain.events d.drain.demux := by
  induction d using drain_induction with
  | finished d h => simpa only [drain_of_finished h] using steps_next d
  | item d i h ih =>
    rw [drain_of_item h]
    exact (steps_next d).trans ih

theorem steps_gather (d : Demux) : Steps d d.gather.events d.gather.demux := by
  induction d using drain_induction with
  | finished d h => simpa only [gather_of_finished h] using steps_next d
  | item d i h ih =>
    cases i with
    | error e => simpa only [gather_of_error h] using steps_next d
    | payload bytes =>
      rw [gather_of_payload h]
      exact (steps_next d).trans ih

/-! ## Items of a poll -/

theorem items_poll (h : d.Consistent) : items d.poll.events = d.poll.value.item?.toList := by
  induction d using poll_induction with
  | answer d a hs =>
    rw [poll_of_answer hs]
    simp [(step_transition h).items_events]
  | go d hs ih =>
    rw [poll_of_none hs]
    simpa [Outcome.after, (step_transition h).items_events] using ih h.step

theorem items_next (h : d.Consistent) : items d.next.events = d.next.value.item?.toList := by
  induction d using next_induction with
  | ready d hp => rw [next_of_ready hp, items_poll h]
  | pending d hp ih =>
    rw [next_of_pending hp]
    simpa [Outcome.after, items_poll h, hp] using ih ((steps_poll d).consistent h)

theorem items_drain (h : d.Consistent) : items d.drain.events = d.drain.value := by
  induction d using drain_induction with
  | finished d hn => simp [drain_of_finished hn, items_next h, hn]
  | item d i hn ih =>
    rw [drain_of_item hn]
    simpa [Outcome.after, Outcome.map, items_next h, hn] using
      ih ((steps_next d).consistent h)

/-- What is gathered is what was given, payloads and at the end perhaps an error. -/
theorem items_gather (h : d.Consistent) : items d.gather.events =
    d.gather.value.1.map Item.payload ++ (d.gather.value.2.map Item.error).toList := by
  induction d using drain_induction with
  | finished d hn => simp [gather_of_finished hn, items_next h, hn]
  | item d i hn ih =>
    cases i with
    | error e => simp [gather_of_error hn, items_next h, hn]
    | payload bytes =>
      rw [gather_of_payload hn]
      simpa [Outcome.after, Outcome.map, items_next h, hn] using
        ih ((steps_next d).consistent h)

/-! ## The end of a run -/

theorem finished_of_poll (h : d.Consistent) (hv : d.poll.value.IsLast) :
    d.poll.demux.phase = .finished := by
  induction d using poll_induction with
  | answer d a hs =>
    rw [poll_of_answer hs] at hv ⊢
    exact (step_transition h).finished_of_last hs hv
  | go d hs ih =>
    rw [poll_of_none hs] at hv ⊢
    exact ih h.step hv

theorem finished_of_next (h : d.Consistent) (hv : d.next.value.IsLast) :
    d.next.demux.phase = .finished := by
  induction d using next_induction with
  | ready d hp =>
    rw [next_of_ready hp] at hv ⊢
    exact finished_of_poll h hv
  | pending d hp ih =>
    rw [next_of_pending hp] at hv ⊢
    exact ih ((steps_poll d).consistent h) hv

theorem finished_of_drain (h : d.Consistent) : d.drain.demux.phase = .finished := by
  induction d using drain_induction with
  | finished d hn =>
    rw [drain_of_finished hn]
    exact finished_of_next h (.inl hn)
  | item d i hn ih =>
    rw [drain_of_item hn]
    exact ih ((steps_next d).consistent h)

theorem finished_of_gather (h : d.Consistent) : d.gather.demux.phase = .finished := by
  induction d using drain_induction with
  | finished d hn =>
    rw [gather_of_finished hn]
    exact finished_of_next h (.inl hn)
  | item d i hn ih =>
    cases i with
    | error e =>
      rw [gather_of_error hn]
      exact finished_of_next h (.inr ⟨e, hn⟩)
    | payload bytes =>
      rw [gather_of_payload hn]
      exact ih ((steps_next d).consistent h)

/-! ## Sessions -/

def Result.given : Result → List Item
  | .answer a => a.item?.toList
  | .items is => is
  | _ => []

def Operation.drives : Operation → Bool
  | .poll | .next | .drain => true
  | _ => false

def remaining (d : Option Demux) (operations : List Operation) : Option Demux :=
  operations.foldl (fun d operation => (perform? d operation).demux) d

def record (d : Option Demux) (operations : List Operation) : List Event :=
  (session d operations).flatMap (·.events)

/-- All items that the operations of a session return. -/
def received (d : Option Demux) (operations : List Operation) : List Item :=
  (session d operations).flatMap (·.result.given)

theorem record_cons (d : Option Demux) (operation : Operation) (rest : List Operation) :
    record d (operation :: rest) =
      (perform? d operation).events ++ record (perform? d operation).demux rest := rfl

theorem received_cons (d : Option Demux) (operation : Operation) (rest : List Operation) :
    received d (operation :: rest) =
      (perform? d operation).result.given ++ received (perform? d operation).demux rest := rfl

theorem remaining_none (operations : List Operation) : remaining none operations = none := by
  induction operations with
  | nil => rfl
  | cons operation rest ih => exact ih

theorem record_none (operations : List Operation) : record none operations = [] := by
  induction operations with
  | nil => rfl
  | cons operation rest ih => exact ih

theorem session_none (operations : List Operation) :
    ∀ r ∈ session none operations, r = ⟨none, [], .gone⟩ := by
  induction operations with
  | nil => simp [session]
  | cons operation rest ih => simpa [session, perform?] using ih

/-- **Driving takes steps, and returns the items of their events.** -/
theorem steps_perform (h : d.Consistent) {operation : Operation} (ho : operation.drives) :
    ∃ d', (d.perform operation).demux = some d' ∧ Steps d (d.perform operation).events d' ∧
      (d.perform operation).result.given = items (d.perform operation).events := by
  cases operation with
  | poll => exact ⟨_, rfl, steps_poll d, (items_poll h).symm⟩
  | next => exact ⟨_, rfl, steps_next d, (items_next h).symm⟩
  | drain => exact ⟨_, rfl, steps_drain d, (items_drain h).symm⟩
  | _ => cases ho

theorem steps_record {operations : List Operation} (h : d.Consistent)
    (ho : ∀ operation ∈ operations, operation.drives) :
    ∃ d', remaining (some d) operations = some d' ∧ Steps d (record (some d) operations) d' ∧
      received (some d) operations = items (record (some d) operations) := by
  induction operations generalizing d with
  | nil => exact ⟨d, rfl, .refl d, rfl⟩
  | cons operation rest ih =>
    obtain ⟨d', hd, hs, hr⟩ := steps_perform h (ho operation List.mem_cons_self)
    obtain ⟨d'', hd', hs', hr'⟩ :=
      ih (hs.consistent h) fun o hm => ho o (List.mem_cons_of_mem operation hm)
    rw [record_cons, received_cons, perform?, hd, Reading.of_append, hr, hr']
    refine ⟨d'', ?_, hs.trans hs', rfl⟩
    rw [← hd']
    exact congrArg (fun d => remaining d rest) hd

/-- An operation is a run, and one that ends the session releases the callbacks then. -/
theorem run_perform (d : Demux) (operation : Operation) :
    (∃ d', (d.perform operation).demux = some d' ∧ Run d (d.perform operation).events d') ∨
      ((d.perform operation).demux = none ∧
        ∃ es d', Run d es d' ∧ (d.perform operation).events = es ++ d'.releases) := by
  cases operation with
  | poll => exact .inl ⟨_, rfl, (steps_poll d).run⟩
  | next => exact .inl ⟨_, rfl, (steps_next d).run⟩
  | drain => exact .inl ⟨_, rfl, (steps_drain d).run⟩
  | configure policy => exact .inl ⟨_, rfl, (Run.refl d).configure policy⟩
  | collect => exact .inr ⟨rfl, _, _, (steps_gather d).run, rfl⟩
  | drop => exact .inr ⟨rfl, [], d, .refl d, rfl⟩

/-- A session is a run, and what its operations keep holds of the demultiplexer that the run leads
to. -/
theorem run_record_of {P : Demux → Prop}
    (hperform : ∀ d operation, P d →
      (∃ d', (d.perform operation).demux = some d' ∧ Run d (d.perform operation).events d' ∧
        P d') ∨
      ((d.perform operation).demux = none ∧ ∃ es d', Run d es d' ∧ P d' ∧
        (d.perform operation).events = es ++ d'.releases))
    (hP : P d) (operations : List Operation) :
    ∃ es d', Run d es d' ∧ P d' ∧
      ((remaining (some d) operations = some d' ∧ record (some d) operations = es) ∨
        (remaining (some d) operations = none ∧
          record (some d) operations = es ++ d'.releases)) := by
  induction operations generalizing d with
  | nil => exact ⟨[], d, .refl d, hP, .inl ⟨rfl, rfl⟩⟩
  | cons operation rest ih =>
    rw [record_cons, show remaining (some d) (operation :: rest) =
      remaining (d.perform operation).demux rest from rfl, perform?]
    rcases hperform d operation hP with ⟨d', hd, hr, hP'⟩ | ⟨hd, es, d', hr, hP', he⟩
    · rw [hd]
      obtain ⟨fs, d'', hr', hP'', hend⟩ := ih hP'
      refine ⟨_, d'', hr.trans hr', hP'', ?_⟩
      rcases hend with ⟨hd', hf⟩ | ⟨hd', hf⟩
      · exact .inl ⟨hd', by rw [hf]⟩
      · exact .inr ⟨hd', by rw [hf, List.append_assoc]⟩
    · rw [hd, remaining_none, record_none, List.append_nil]
      exact ⟨es, d', hr, hP', .inr ⟨rfl, he⟩⟩

/-- **A session is a run**, ended perhaps by the release of the callbacks. -/
theorem run_record (d : Demux) (operations : List Operation) :
    ∃ es d', Run d es d' ∧
      ((remaining (some d) operations = some d' ∧ record (some d) operations = es) ∨
        (remaining (some d) operations = none ∧
          record (some d) operations = es ++ d'.releases)) := by
  have hperform := fun d operation (_ : True) => run_perform d operation
  simpa only [true_and, and_true] using
    run_record_of (P := fun _ => True) (by simpa only [true_and, and_true] using hperform)
      trivial operations

end Demux

end ResponseFraming
