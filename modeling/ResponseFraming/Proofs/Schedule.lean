import ResponseFraming.Proofs.Course

/-!
# Schedules

When an answer is pending depends on the schedule: on the pauses of the
transport, on how long the callbacks take, and on how the demultiplexer is
driven.  Nothing else depends on it.

* `Driven.forecast`: two runs are not compared with each other, but each with the
  course of its transport.
* `polls_transition`: a step polls just the party that its demultiplexer
  `awaits`, and is pending if that party is.
* `polls_head?_poll`, `polls_getLast?_poll`: the same for a whole poll, with what
  it polls first and what it polls last.
-/

namespace ResponseFraming

inductive Party
  | transport
  | head
  | trailers
deriving DecidableEq, Repr

/-- The party that is polled, and whether its answer is pending. -/
@[simp] def Event.poll? : Event → Option (Party × Bool)
  | .transportPolled signal => some (.transport, signal = .pending)
  | .headPolled reply => some (.head, reply = .pending)
  | .trailersPolled reply => some (.trailers, reply = .pending)
  | _ => none

@[simps] def polls : Reading Event (Party × Bool) := ⟨Event.poll?⟩

def pauses (events : List Event) : Nat := events.count (.transportPolled .pending)

variable {es fs : List Event}

theorem transportPolls_eq (es : List Event) :
    transportPolls es = transportPolls (progress es) + pauses es := by
  induction es with
  | nil => rfl
  | cons e es ih =>
    simp only [transportPolls, pauses] at ih
    rcases e with (_ | _ | _ | _) | _ | (_ | _ | _) | _ | _ | (_ | _ | _) | _ | _ | (_ | _ | _) <;>
      simp [transportPolls, pauses, Event.isTransportPoll, List.countP_cons, ih] <;> omega

namespace Demux

variable {d d' : Demux}

def awaits (d : Demux) : Option Party :=
  match d.phase with
  | .opening | .streaming => some .transport
  | .announcing .. => some .head
  | .closing .. => some .trailers
  | .finished => none

theorem awaits_of_pulling (h : d.Pulling) : d.awaits = some .transport := by
  rcases h with h | h <;> simp only [awaits, h]

/-- **A step polls what its demultiplexer awaits**, and is pending exactly if that is. -/
theorem polls_transition {s : Step} (h : Transition d s) :
    polls s.events =
      (d.awaits.map fun party => (party, decide (s.value = some .pending))).toList := by
  cases h with
  | idle h => simp [awaits, h]
  | stall h hs => simp [awaits_of_pulling h]
  | fail h hs => simp [awaits_of_pulling h]
  | exhaust h hs hp => simp [awaits_of_pulling h]
  | truncate h hs hp => simp [awaits_of_pulling h]
  | reject h hs hh hp => simp [awaits_of_pulling (.inr h)]
  | announce h hs hh hc => simp [awaits_of_pulling (.inl h)]
  | @deliver _ c h hs hh hc => cases hp : c.payload? <;> simp [awaits_of_pulling h]
  | close h hs hh hc ht => simp [awaits_of_pulling h]
  | headStall h hc => simp [awaits, h]
  | headFail h hc => simp [awaits, h]
  | @headDeliver _ _ body h hc hb => cases hp : body.payload <;> simp [awaits, h]
  | headClose h hc hb ht => simp [awaits, h]
  | trailersStall h hc => simp [awaits, h]
  | trailersFail h hc => simp [awaits, h]
  | @trailersDone _ _ payload h hc => cases payload <;> simp [awaits, h]

theorem awaits_of_pending {s : Step} (h : Transition d s) (hv : s.value = some .pending) :
    s.demux.awaits = d.awaits := by
  cases h with
  | stall h hs => rfl
  | headStall h hc => simp [awaits, h]
  | trailersStall h hc => simp [awaits, h]
  | @deliver _ c h hs hh hc => cases hp : c.payload? <;> simp [hp] at hv
  | @headDeliver _ _ body h hc hb => cases hp : body.payload <;> simp [hp] at hv
  | @trailersDone _ _ payload h hc => cases payload <;> simp at hv
  | _ => simp at hv

theorem awaits_isSome (h : d.phase ≠ .finished) : ∃ party, d.awaits = some party := by
  cases hp : d.phase with
  | finished => exact absurd hp h
  | _ => simp [awaits, hp]

theorem polls_head?_poll (h : d.Consistent) :
    (polls d.poll.events).head?.map Prod.fst = d.awaits := by
  induction d using poll_induction with
  | answer d a hs =>
    rw [poll_of_answer hs, Reading.of_append, polls_transition (step_transition h)]
    cases d.awaits <;> rfl
  | go d hs ih =>
    obtain ⟨party, hp⟩ := awaits_isSome (d := d) (phase_ne_finished_of_step (by simp [hs]))
    rw [poll_of_none hs, Outcome.after, Reading.of_append, polls_transition (step_transition h), hp]
    rfl

/-- The last thing that a poll polls was pending exactly if the poll is, and is awaited again. -/
theorem polls_getLast?_poll (h : d.Consistent) :
    (d.poll.value = .pending ↔ ∃ party, (polls d.poll.events).getLast? = some (party, true)) ∧
      ∀ party, (polls d.poll.events).getLast? = some (party, true) →
        d.poll.demux.awaits = some party := by
  induction d using poll_induction with
  | answer d a hs =>
    have ht := step_transition h
    have hl : (polls d.poll.events).getLast? =
        d.awaits.map fun party => (party, decide (a = .pending)) := by
      rw [poll_of_answer hs, Reading.of_append, polls_transition ht, hs]
      cases d.awaits <;> simp
    rw [hl, poll_of_answer hs]
    constructor
    · constructor
      · rintro rfl
        obtain ⟨party, hp⟩ :=
          awaits_isSome (d := d) (phase_ne_finished_of_step (by simp [hs]))
        exact ⟨party, by rw [hp]; rfl⟩
      · rintro ⟨party, hp⟩
        obtain ⟨_, _, he⟩ := Option.map_eq_some_iff.mp hp
        exact of_decide_eq_true (Prod.mk.inj he).2
    · intro party hp
      obtain ⟨_, hw, he⟩ := Option.map_eq_some_iff.mp hp
      obtain ⟨rfl, ha⟩ := Prod.mk.inj he
      rw [awaits_of_pending ht (by rw [hs, of_decide_eq_true ha]), hw]
  | go d hs ih =>
    obtain ⟨hiff, hlast⟩ := ih h.step
    have hl : ∀ party, (polls d.poll.events).getLast? = some (party, true) ↔
        (polls d.step.demux.poll.events).getLast? = some (party, true) := by
      intro party
      rw [poll_of_none hs, Outcome.after, Reading.of_append,
        polls_transition (step_transition h), hs, List.getLast?_append]
      cases hr : (polls d.step.demux.poll.events).getLast? with
      | some last => simp
      | none => cases d.awaits <;> simp
    rw [poll_of_none hs] at hl ⊢
    exact ⟨hiff.trans (exists_congr fun party => (hl party).symm),
      fun party hp => hlast party ((hl party).mp hp)⟩

/-! ## Two schedules -/

/-- The operations drive a demultiplexer to its end, which is `d'`. -/
structure Driven (d : Demux) (operations : List Operation) (d' : Demux) : Prop where
  drives : ∀ operation ∈ operations, operation.drives
  remaining : remaining (some d) operations = some d'
  isFinished : d'.isFinished

theorem Driven.forecast {operations : List Operation} (h : Driven d operations d')
    (hd : d.Consistent) :
    d.forecast = ⟨progress (record (some d) operations), d'.pulled⟩ ∧
      received (some d) operations = items d.forecast.events := by
  obtain ⟨d'', hr, hs, hi⟩ := steps_record hd h.drives
  obtain rfl : d'' = d' := Option.some.inj (hr.symm.trans h.remaining)
  have hf := forecast_of_finished hd hs (of_decide_eq_true h.isFinished)
  exact ⟨hf, by rw [hf, hi, items_progress]⟩

/-- **Nothing but pending answers depends on the schedule.**  Transports with the same elements and
callbacks that end in the same way give, however they are driven, the same items, the same
progress and the same number of chunks, and as many polls of the transport, not counting those that
found a pause.  A poll is pending exactly if the last thing that it polled was, and the next poll
begins with that. -/
theorem schedule_independent (policy : Policy) (source₁ source₂ : Transport)
    (onHead₁ onHead₂ onTrailers₁ onTrailers₂ : Callback)
    (hs : source₁.elements = source₂.elements) (hh : onHead₁.failure = onHead₂.failure)
    (ht : onTrailers₁.failure = onTrailers₂.failure) :
    let d₁ := new source₁ onHead₁ onTrailers₁ policy
    let d₂ := new source₂ onHead₂ onTrailers₂ policy
    (∀ operations₁ operations₂ e₁ e₂, Driven d₁ operations₁ e₁ → Driven d₂ operations₂ e₂ →
      let events₁ := record (some d₁) operations₁
      let events₂ := record (some d₂) operations₂
      received (some d₁) operations₁ = received (some d₂) operations₂ ∧
        progress events₁ = progress events₂ ∧ e₁.pulled = e₂.pulled ∧
        transportPolls events₁ + pauses events₂ = transportPolls events₂ + pauses events₁) ∧
    ∀ operations d, (∀ operation ∈ operations, operation.drives) →
      remaining (some d₁) operations = some d →
        (d.poll.value = .pending ↔
          ∃ party, (polls d.poll.events).getLast? = some (party, true)) ∧
        ∀ party, (polls d.poll.events).getLast? = some (party, true) →
          (polls d.poll.demux.poll.events).head?.map Prod.fst = some party := by
  intro d₁ d₂
  have hd₁ : d₁.Consistent := consistent_new _ _ _ _
  have hd₂ : d₂.Consistent := consistent_new _ _ _ _
  have hf : d₁.forecast = d₂.forecast := by
    rw [forecast_new, forecast_new, ← Terms.course_elements, hs, Terms.course_elements, hh, ht]
  constructor
  · intro operations₁ operations₂ e₁ e₂ h₁ h₂ events₁ events₂
    obtain ⟨hf₁, hi₁⟩ := h₁.forecast hd₁
    obtain ⟨hf₂, hi₂⟩ := h₂.forecast hd₂
    have hc := hf₁.symm.trans (hf.trans hf₂)
    have hp : progress events₁ = progress events₂ := congrArg Course.events hc
    refine ⟨by rw [hi₁, hi₂, hf], hp, congrArg Course.pulled hc, ?_⟩
    rw [transportPolls_eq events₁, transportPolls_eq events₂, hp]
    omega
  · intro operations d ho hr
    obtain ⟨d', hr', hsteps, -⟩ := steps_record hd₁ ho
    obtain rfl : d' = d := Option.some.inj (hr'.symm.trans hr)
    have hd := hsteps.consistent hd₁
    obtain ⟨hiff, hlast⟩ := polls_getLast?_poll hd
    refine ⟨hiff, fun party hp => ?_⟩
    rw [polls_head?_poll ((steps_poll d').consistent hd), hlast party hp]

/-- A response with pauses, taken piece by piece, against the same response without. -/
theorem schedule_independent_paused :
    let first := (Chunk.ofPayload [104]).withHead ⟨200, .empty⟩
    let last := (Chunk.ofPayload [105]).complete none
    let source₁ : Transport := [.pending, .chunk first, .pending, .chunk last]
    let source₂ : Transport := [.chunk first, .chunk last]
    let d₁ := new source₁ ⟨1, none⟩ ⟨2, none⟩ .strict
    let d₂ := new source₂ .immediate .immediate .strict
    let e₁ : Demux := ⟨[], none, none, .strict, .finished, 2⟩
    let e₂ : Demux := ⟨[], none, none, .strict, .finished, 2⟩
    let operations₁ : List Operation := [.poll, .next, .poll, .drain]
    Driven d₁ operations₁ e₁ ∧ Driven d₂ [.drain] e₂ ∧
      received (some d₁) operations₁ = received (some d₂) [.drain] ∧
      progress (record (some d₁) operations₁) = progress (record (some d₂) [.drain]) ∧
      (d₁.poll.value = .pending ↔
        ∃ party, (polls d₁.poll.events).getLast? = some (party, true)) := by
  intro first last source₁ source₂ d₁ d₂ e₁ e₂ operations₁
  have h₁ : Driven d₁ operations₁ e₁ := ⟨by decide, by decide +kernel, by decide⟩
  have h₂ : Driven d₂ [.drain] e₂ := ⟨by decide, by decide +kernel, by decide⟩
  obtain ⟨hruns, hpoll⟩ := schedule_independent .strict source₁ source₂ ⟨1, none⟩ .immediate
    ⟨2, none⟩ .immediate (by decide) rfl rfl
  obtain ⟨hitems, hprogress, -, -⟩ := hruns operations₁ [.drain] e₁ e₂ h₁ h₂
  exact ⟨h₁, h₂, hitems, hprogress, (hpoll [] d₁ (by simp) rfl).1⟩

end Demux

end ResponseFraming
