import ResponseFraming.Proofs.Fault

/-!
# When what is polled

What has come to its end is never polled again: the transport after its end or a
failure, a callback after its reply.  The transport is not polled either while a
callback is in flight, nor after the trailer callback has been called, nor after
an error.

`Standing` is the invariant.  While there is something to wait for, all callbacks
that were called have come to their end but the one in flight; and when there is
nothing, the stream is `Over`.

* `standing_transition`, `standing_run`: the step and the run.
* `Standing.mayPoll`: what is awaited may be polled.
* `session_of_finished`: after the end nothing is done any more.
-/

namespace ResponseFraming

/-- What comes to its end with an event. -/
@[simp] def Event.resolved? : Event → Option Party
  | .transportPolled .ended | .transportPolled (.failed _) => some .transport
  | .headPolled .done | .headPolled (.failed _) => some .head
  | .trailersPolled .done | .trailersPolled (.failed _) => some .trailers
  | _ => none

/-- The callback that an event calls. -/
@[simp] def Event.called? : Event → Option Party
  | .headCalled _ => some .head
  | .trailersCalled _ => some .trailers
  | _ => none

@[simps] def resolved : Reading Event Party := ⟨Event.resolved?⟩

@[simps] def called : Reading Event Party := ⟨Event.called?⟩

/-- A late head was rejected: upon the chunk came the error. -/
def Rejected (events : List Event) : Prop :=
  ∃ c n, Fault.Struck events (.lateHead c) (.framing (.lateHead n))

/-- The transport has ended or failed, a callback has failed, a late head was rejected, or the
trailer callback has come to its end. -/
def Over (events : List Event) : Prop :=
  .transport ∈ resolved events ∨
    (∃ e, .headPolled (.failed e) ∈ events ∨ .trailersPolled (.failed e) ∈ events) ∨
    Rejected events ∨ .trailers ∈ resolved events

variable {es fs : List Event}

theorem resolved_acts (es : List Event) : resolved (acts es) = resolved es :=
  of_acts (fun e he => by cases e <;> simp_all) es

theorem called_acts (es : List Event) : called (acts es) = called es :=
  of_acts (fun e he => by cases e <;> simp_all) es

theorem over_acts : Over (acts es) ↔ Over es := by
  simp only [Over, Rejected, resolved_acts, Fault.struck_acts,
    fun e => mem_acts es (e := .headPolled (.failed e)) rfl,
    fun e => mem_acts es (e := .trailersPolled (.failed e)) rfl]

theorem Over.append (h : Over es) (fs : List Event) : Over (es ++ fs) := by
  rcases h with h | ⟨e, h⟩ | ⟨c, n, h⟩ | h
  · exact .inl (by simp [h])
  · exact .inr (.inl ⟨e, by rcases h with h | h <;> simp [h]⟩)
  · exact .inr (.inr (.inl ⟨c, n, h.append fs⟩))
  · exact .inr (.inr (.inr (by simp [h])))

/-- Neither the head callback has failed nor was an error given. -/
def Unfailed (events : List Event) : Prop :=
  (∀ e, .headPolled (.failed e) ∉ events) ∧ ∀ e, .error e ∉ items events

namespace Demux

variable {d d' : Demux}

/-- What has happened so far, for each phase. -/
def Standing (d : Demux) (events : List Event) : Prop :=
  match d.phase with
  | .opening => called events = [] ∧ resolved events = [] ∧ Unfailed events
  | .announcing .. => called events = [.head] ∧ resolved events = [] ∧ Unfailed events
  | .streaming => called events = resolved events ∧ resolved events ⊆ [.head] ∧ Unfailed events
  | .closing .. =>
    called events = resolved events ++ [.trailers] ∧ resolved events ⊆ [.head] ∧ Unfailed events
  | .finished => Over events

theorem standing_of_opening (hp : d.phase = .opening) : d.Standing [] := by
  simp [Standing, hp, Unfailed]

theorem Standing.of_pulling (h : d.Standing es) (hp : d.Pulling) :
    called es = resolved es ∧ resolved es ⊆ [.head] ∧ Unfailed es := by
  rcases hp with hp | hp <;> simp only [Standing, hp] at h
  · simp [h]
  · exact h

/-- **The step of the invariant.** -/
theorem standing_transition {s : Step} (h : Transition d s) (hs : d.Standing es) :
    s.demux.Standing (es ++ acts s.trace) := by
  cases h with
  | idle h =>
    simp only [Standing, h] at hs ⊢
    exact hs.append _
  | stall h =>
    rcases h with h | h <;> simpa [Standing, h, Step.trace, Unfailed] using hs
  | fail h => exact .inl (by simp [Step.trace])
  | exhaust h => exact .inl (by simp [Step.trace])
  | truncate h => exact .inl (by simp [Step.trace])
  | @reject _ c =>
    refine .inr (.inr (.inl ⟨c, d.pulled + 1, ?_⟩))
    rw [Fault.Struck, Reading.of_append]
    exact List.infix_append_of_infix_right (by simp [Step.trace])
  | announce h =>
    simp only [Standing, h] at hs
    simpa [Standing, Step.trace, Unfailed] using hs
  | deliver h =>
    rw [Step.trace_giving]
    simpa [Standing, Unfailed] using hs.of_pulling h
  | close h =>
    simpa [Standing, Step.trace, Unfailed] using hs.of_pulling h
  | headStall h =>
    simpa [Standing, h, Step.trace, Unfailed] using hs
  | @headFail _ _ _ e => exact .inr (.inl ⟨e, .inl (by simp [Step.trace])⟩)
  | headDeliver h =>
    rw [Step.trace_giving]
    simp only [Standing, h] at hs
    simpa [Standing, Unfailed, hs.1, hs.2.1] using hs.2.2
  | headClose h =>
    simp only [Standing, h] at hs
    simpa [Standing, Step.trace, Unfailed, hs.1, hs.2.1] using hs.2.2
  | trailersStall h =>
    simpa [Standing, h, Step.trace, Unfailed] using hs
  | @trailersFail _ _ _ e => exact .inr (.inl ⟨e, .inr (by simp [Step.trace])⟩)
  | trailersDone => exact .inr (.inr (.inr (by simp [Step.trace])))

theorem standing_run (h : Run d es d') (hd : d.Consistent) (hs : d.Standing []) :
    d'.Standing (acts es) := by
  induction h with
  | refl => exact hs
  | step prior ih =>
    rw [Reading.of_append]
    exact standing_transition (step_transition (prior.consistent hd)) ih
  | configure _ policy ih => exact ih

/-! ## What may be polled -/

/-- What must and must not have happened before a poll. -/
def MayPoll (before : List Event) : Party → Prop
  /- Neither ended nor failed, no complete chunk acted upon, no error, no callback in flight. -/
  | .transport =>
    .transport ∉ resolved before ∧ .trailers ∉ called before ∧ (∀ e, .error e ∉ items before) ∧
      ∀ callback ∈ called before, callback ∈ resolved before
  /- Called and not yet come to its end. -/
  | callback => callback ∈ called before ∧ callback ∉ resolved before

theorem mayPoll_acts {party : Party} : MayPoll (acts es) party ↔ MayPoll es party := by
  cases party <;> simp only [MayPoll, resolved_acts, called_acts, items_acts]

/-- **What is awaited may be polled.** -/
theorem Standing.mayPoll (h : d.Standing es) {party : Party} (ha : d.awaits = some party) :
    MayPoll es party := by
  have hpull : d.Pulling → MayPoll es .transport := by
    intro hp
    obtain ⟨hc, hr, -, hi⟩ := h.of_pulling hp
    refine ⟨fun hm => ?_, fun hm => ?_, hi, fun callback hm => hc ▸ hm⟩
    · simpa using hr hm
    · rw [hc] at hm
      simpa using hr hm
  cases hp : d.phase with
  | opening =>
    obtain rfl : party = .transport := by simpa [awaits, hp] using ha.symm
    exact hpull (.inl hp)
  | streaming =>
    obtain rfl : party = .transport := by simpa [awaits, hp] using ha.symm
    exact hpull (.inr hp)
  | announcing callback body =>
    obtain rfl : party = .head := by simpa [awaits, hp] using ha.symm
    simp only [Standing, hp] at h
    simp [MayPoll, h]
  | closing callback payload =>
    obtain rfl : party = .trailers := by simpa [awaits, hp] using ha.symm
    simp only [Standing, hp] at h
    exact ⟨by simp [h.1], fun hm => by simpa using h.2.1 hm⟩
  | finished => simp [awaits, hp] at ha

theorem Standing.unfailed (h : d.Standing es) (hp : d.phase ≠ .finished) :
    resolved es ⊆ [.head] ∧ Unfailed es := by
  cases hd : d.phase <;> simp_all [Standing]

theorem Rejected.error (h : Rejected es) : ∃ e, .error e ∈ items es := by
  obtain ⟨c, n, h⟩ := h
  have hm := h.subset (a := .answered (.item (.error (.framing (.lateHead n))))) (by simp)
  rw [← items_acts]
  exact ⟨_, Reading.mem_of.mpr ⟨_, hm, rfl⟩⟩

/-- **There is nothing to wait for exactly when the stream is over.** -/
theorem Standing.finished_iff (h : d.Standing es) : d.phase = .finished ↔ Over es := by
  constructor
  · intro hp
    simpa only [Standing, hp] using h
  · intro ho
    refine Decidable.byContradiction fun hp => ?_
    obtain ⟨hr, hf, hi⟩ := h.unfailed hp
    rcases ho with ho | ⟨e, ho | ho⟩ | ho | ho
    · simpa using hr ho
    · exact hf e ho
    · have hm : .trailers ∈ resolved es := Reading.mem_of.mpr ⟨_, ho, rfl⟩
      simpa using hr hm
    · obtain ⟨e, he⟩ := Rejected.error ho
      exact hi e he
    · simpa using hr ho

/-! ## Nothing after the end -/

theorem poll_of_finished (h : d.phase = .finished) :
    d.poll = ⟨d, [.answered .finished], .finished⟩ := by
  rw [poll_of_answer (by rw [step_of_finished h]), step_of_finished h]
  rfl

theorem next_of_finished (h : d.phase = .finished) :
    d.next = ⟨d, [.answered .finished], .finished⟩ := by
  rw [next_of_ready (by simp [poll_of_finished h]), poll_of_finished h]

theorem drain_of_over (h : d.phase = .finished) : d.drain = ⟨d, [.answered .finished], []⟩ := by
  rw [drain_of_finished (by rw [next_of_finished h]), next_of_finished h]

theorem gather_of_over (h : d.phase = .finished) :
    d.gather = ⟨d, [.answered .finished], ([], none)⟩ := by
  rw [gather_of_finished (by rw [next_of_finished h]), next_of_finished h]

/-- A reaction that does nothing, but that it may set the policy. -/
structure Reaction.Idle (d : Demux) (r : Reaction) : Prop where
  events : ∀ e ∈ r.events, e = .answered .finished
  answer : ∀ a, r.result = .answer a → a = .finished
  demux : ∀ d', r.demux = some d' → ∃ policy, d' = d.configure policy

theorem perform_of_finished (hd : d.Consistent) (h : d.phase = .finished) (operation : Operation) :
    (d.perform operation).Idle d := by
  have hr : d.releases = [] := by
    simp only [Consistent, h] at hd
    simp [releases, hd]
  cases operation with
  | poll =>
    rw [perform, poll_of_finished h]
    exact ⟨by simp, by simp, by simp; exact ⟨d.policy, rfl⟩⟩
  | next =>
    rw [perform, next_of_finished h]
    exact ⟨by simp, by simp, by simp; exact ⟨d.policy, rfl⟩⟩
  | drain =>
    rw [perform, drain_of_over h]
    exact ⟨by simp, by simp, by simp; exact ⟨d.policy, rfl⟩⟩
  | collect =>
    rw [perform, collect, gather_of_over h]
    exact ⟨by simp [Outcome.map, hr], by simp, by simp⟩
  | drop => exact ⟨by simp [perform, hr], by simp [perform], by simp [perform]⟩
  | configure policy =>
    exact ⟨by simp [perform], by simp [perform], fun d' hd' => ⟨policy, (Option.some.inj hd').symm⟩⟩

/-- **After the end nothing is done any more**, whatever is asked for. -/
theorem session_of_finished (hd : d.Consistent) (h : d.phase = .finished)
    (operations : List Operation) :
    ∀ r ∈ session (some d) operations, r.Idle d := by
  induction operations generalizing d with
  | nil => simp [session]
  | cons operation rest ih =>
    have hidle := perform_of_finished hd h operation
    intro r hm
    rw [session, List.mem_cons] at hm
    rcases hm with rfl | hm
    · exact hidle
    · rw [perform?] at hm
      cases hp : (d.perform operation).demux with
      | none =>
        rw [hp] at hm
        rw [session_none rest r hm]
        exact ⟨by simp, by simp, by simp⟩
      | some d' =>
        obtain ⟨policy, rfl⟩ := hidle.demux d' hp
        rw [hp] at hm
        obtain ⟨he, ha, hdm⟩ := ih (hd.configure policy) h r hm
        exact ⟨he, ha, hdm⟩

/-- **Nothing is polled out of turn, and the end is final.**  Whatever a session has done so far,
everything that it polled might be polled then; the demultiplexer has finished exactly if the stream
is over; a poll that is pending leaves it unfinished, and one that gives an error or the end leaves
it finished; and once it has finished nothing is done any more, under any policy. -/
theorem polls_in_turn (source : Transport) (onHead onTrailers : Callback) (policy : Policy)
    (operations : List Operation) (d : Demux)
    (h : remaining (some (new source onHead onTrailers policy)) operations = some d) :
    let events := record (some (new source onHead onTrailers policy)) operations
    (∀ before e after party, events = before ++ e :: after →
      e.poll?.map Prod.fst = some party → MayPoll before party) ∧
    (d.isFinished ↔ Over events) ∧
    (d.poll.value = .pending → ¬ d.poll.demux.isFinished) ∧
    (d.poll.value.IsLast → d.poll.demux.isFinished) ∧
    (d.isFinished → ∀ later, ∀ r ∈ session (some d) later, r.Idle d) := by
  intro events
  have hnew := consistent_new source onHead onTrailers policy
  have hstart : (new source onHead onTrailers policy).Standing [] := standing_of_opening rfl
  obtain ⟨hrun, -, -⟩ := run_of_remaining hnew h
  have hd := hrun.consistent hnew
  have hfin : ∀ d : Demux, d.isFinished ↔ d.phase = .finished := fun d => decide_eq_true_iff
  simp only [hfin]
  refine ⟨?_, ?_, ?_, finished_of_poll hd, session_of_finished hd⟩
  · intro before e after party he hp
    obtain ⟨d₁, hr₁, ha⟩ := hrun.of_poll hnew he (by rw [← Option.isSome_map, hp]; rfl)
    rw [← mayPoll_acts]
    exact (standing_run hr₁ hnew hstart).mayPoll (ha.symm.trans hp)
  · rw [(standing_run hrun hnew hstart).finished_iff, over_acts]
  · intro hv hp
    obtain ⟨hiff, hlast⟩ := polls_getLast?_poll hd
    obtain ⟨party, hl⟩ := hiff.mp hv
    have := hlast party hl
    simp [awaits, hp] at this

/-- A response with pauses in the transport and in the head callback, which is over before the
transport is. -/
theorem polls_in_turn_paused :
    let first := (Chunk.ofPayload [104]).withHead ⟨200, .empty⟩
    let last := (Chunk.ofPayload [105]).complete none
    let start := new [.chunk first, .pending, .chunk last, .chunk first] ⟨1, none⟩ .immediate
      .default
    let operations : List Operation := [.poll, .poll, .poll, .configure .strict, .next]
    let d : Demux := ⟨[.chunk first], none, none, .strict, .finished, 2⟩
    remaining (some start) operations = some d ∧ Over (record (some start) operations) ∧
      ∀ later, ∀ r ∈ session (some d) later, r.Idle d := by
  intro first last start operations d
  have h : remaining (some start) operations = some d := by decide +kernel
  obtain ⟨-, hover, -, -, hidle⟩ := polls_in_turn _ _ _ _ operations d h
  exact ⟨h, hover.mp (by decide), hidle (by decide)⟩

end Demux

end ResponseFraming
