import ResponseFraming.Proofs.Order
import ResponseFraming.Proofs.Schedule
import ResponseFraming.Proofs.Session

/-!
# Faults

A stream fails at one of five faults, and each is found out at a poll of the
transport or of a callback.  Two of them are faults under a policy only, and
depend on what went before (`Fault.Arises`).

* `Transition.begins`: a step begins with its poll, so a poll in a run is the
  beginning of a step (`Run.of_poll`).
* `error_transition`: a step gives an error exactly if a fault arises at its poll;
  `error_poll` is the same for a whole poll of the demultiplexer.
* `Run.of_error`: a run in which an error was given ended with the step that gave it,
  but for further answers that all is over.
-/

namespace ResponseFraming

/-- What makes a stream fail. -/
inductive Fault
  /-- The transport failed. -/
  | transport (e : StreamError)
  /-- The transport ended before a complete chunk. -/
  | truncation
  /-- The chunk has a head and is not the first. -/
  | lateHead (c : Chunk)
  /-- The head callback failed. -/
  | head (e : StreamError)
  /-- The trailer callback failed. -/
  | trailers (e : StreamError)
deriving DecidableEq, Repr

namespace Fault

/-- The poll at which a fault is found out. -/
@[simp] def poll : Fault → Event
  | transport e => .transportPolled (.failed e)
  | truncation => .transportPolled .ended
  | lateHead c => .transportPolled (.chunk c)
  | head e => .headPolled (.failed e)
  | trailers e => .trailersPolled (.failed e)

/-- The error that is given for a fault when so many chunks have been pulled. -/
@[simp] def error (pulled : Nat) : Fault → StreamError
  | transport e | head e | trailers e => e
  | truncation => .framing (.truncated pulled)
  | lateHead _ => .framing (.lateHead pulled)

/-- Whether what a poll found is a fault under a policy and after some events. -/
@[simp] def Arises (policy : Policy) (before : List Event) : Fault → Prop
  | truncation => policy.truncation = .strict ∧ ∀ trailers, .trailersCalled trailers ∉ before
  | lateHead c => policy.lateHead = .reject ∧ c.hasHead ∧ delivered before ≠ []
  | _ => True

/-- The error was given for the fault: it is the answer to the poll that found it. -/
def Struck (events : List Event) (f : Fault) (e : StreamError) : Prop :=
  [f.poll, .answered (.item (.error e))] <:+: acts events

/-- The fault arises among these events. -/
def In (policy : Policy) (before events : List Event) (f : Fault) : Prop :=
  ∃ pre post, events = pre ++ f.poll :: post ∧ f.Arises policy (before ++ pre)

theorem exists_iff {P : Fault → Prop} :
    (∃ f, P f) ↔ (∃ e, P (.transport e)) ∨ P .truncation ∨ (∃ c, P (.lateHead c)) ∨
      (∃ e, P (.head e)) ∨ ∃ e, P (.trailers e) := by
  constructor
  · rintro ⟨f, h⟩
    cases f with
    | transport e => exact .inl ⟨e, h⟩
    | truncation => exact .inr (.inl h)
    | lateHead c => exact .inr (.inr (.inl ⟨c, h⟩))
    | head e => exact .inr (.inr (.inr (.inl ⟨e, h⟩)))
    | trailers e => exact .inr (.inr (.inr (.inr ⟨e, h⟩)))
  · rintro (⟨e, h⟩ | h | ⟨c, h⟩ | ⟨e, h⟩ | ⟨e, h⟩) <;> exact ⟨_, h⟩

theorem poll_injective {f g : Fault} (h : f.poll = g.poll) : f = g := by
  cases f <;> cases g <;> simp_all

theorem isSome_poll? (f : Fault) : f.poll.poll?.isSome := by cases f <;> rfl

variable {es : List Event} {f : Fault} {e : StreamError}

theorem struck_acts : Struck (acts es) f e ↔ Struck es f e := by
  rw [Struck, acts_acts, Struck]

theorem Struck.append (h : Struck es f e) (fs : List Event) : Struck (es ++ fs) f e := by
  rw [Struck, Reading.of_append]
  exact List.infix_append_of_infix_left h

end Fault

theorem not_mem_of_polls {q : Event} {rest : List Event} (hr : polls rest = [])
    (hq : q.poll?.isSome) : q ∉ rest := by
  intro hm
  have hnone : q.poll? = none := Reading.of_eq_nil.mp hr q hm
  rw [hnone] at hq
  cases hq

theorem eq_or_later_of_polls {p q : Event} {rest fs pre post : List Event} (hr : polls rest = [])
    (hq : q.poll?.isSome) (h : p :: rest ++ fs = pre ++ q :: post) :
    (pre = [] ∧ q = p) ∨ ∃ pre', pre = p :: rest ++ pre' ∧ fs = pre' ++ q :: post := by
  cases pre with
  | nil => exact .inl ⟨rfl, (List.cons.inj h).1.symm⟩
  | cons x pre =>
    simp only [List.cons_append, List.cons.injEq] at h
    obtain ⟨rfl, h⟩ := h
    rcases List.append_eq_append_iff.mp h with ⟨pre', rfl, hf⟩ | ⟨rest', rfl, hf⟩
    · exact .inr ⟨pre', rfl, hf⟩
    · cases rest' with
      | nil => exact .inr ⟨[], by simp, by simpa using hf.symm⟩
      | cons x rest' =>
        obtain ⟨rfl, -⟩ := List.cons.inj hf
        exact absurd (by simp) (not_mem_of_polls hr hq)

theorem Fault.not_in_of_polls {f : Fault} {policy : Policy} {before fs : List Event}
    (h : polls fs = []) : ¬ f.In policy before fs := by
  rintro ⟨pre, post, rfl, -⟩
  exact not_mem_of_polls h f.isSome_poll? (by simp)

/-- A fault among events that begin with a poll is found by this or by a later one. -/
theorem Fault.in_cons {f : Fault} {policy : Policy} {before rest fs : List Event} {p : Event}
    (hr : polls rest = []) :
    f.In policy before (p :: rest ++ fs) ↔
      (f.poll = p ∧ f.Arises policy before) ∨ f.In policy (before ++ p :: rest) fs := by
  constructor
  · rintro ⟨pre, post, h, ha⟩
    rcases eq_or_later_of_polls hr f.isSome_poll? h with ⟨rfl, hp⟩ | ⟨pre', rfl, hf⟩
    · exact .inl ⟨hp, by simpa using ha⟩
    · exact .inr ⟨pre', post, hf, by rwa [List.append_assoc]⟩
  · rintro (⟨rfl, ha⟩ | ⟨pre, post, rfl, ha⟩)
    · exact ⟨[], rest ++ fs, rfl, by simpa using ha⟩
    · exact ⟨p :: rest ++ pre, post, by simp, by rwa [← List.append_assoc]⟩

namespace Demux

variable {d d' : Demux} {es fs before after : List Event} {e : StreamError}

@[simp] theorem polls_answer (answer : Option Answer) :
    polls (answer.map Event.answered).toList = [] := by cases answer <;> rfl

/-- **A step begins with its poll**, and has no other. -/
theorem Transition.begins {s : Step} (h : Transition d s) (hd : d.phase ≠ .finished) :
    ∃ p rest, s.events = p :: rest ∧ p.poll?.map Prod.fst = d.awaits ∧ polls rest = [] := by
  have hp := polls_transition h
  obtain ⟨party, ha⟩ := awaits_isSome hd
  obtain ⟨p, rest, hs, hq⟩ : ∃ p rest, s.events = p :: rest ∧ p.poll?.isSome := by
    cases h with
    | idle h => exact absurd h hd
    | _ => exact ⟨_, _, rfl, rfl⟩
  obtain ⟨q, hq⟩ := Option.isSome_iff_exists.mp hq
  rw [hs, Reading.of_cons, polls_shows?, hq, ha] at hp
  obtain ⟨rfl, hr⟩ := List.cons.inj hp
  exact ⟨p, rest, hs, by rw [hq, ha]; rfl, hr⟩

theorem step_of_poll {p : Event} (hd : d.Consistent) (ht : d.step.trace = before ++ p :: after)
    (hp : p.poll?.isSome) : before = [] ∧ p.poll?.map Prod.fst = d.awaits := by
  have hn := not_mem_of_polls (polls_answer d.step.value) hp
  by_cases hf : d.phase = .finished
  · rw [Step.trace, step_of_finished hf, List.nil_append] at ht
    rw [step_of_finished hf, ht] at hn
    simp at hn
  · obtain ⟨q, rest, hs, hq, hr⟩ := (step_transition hd).begins hf
    rw [Step.trace, hs] at ht
    rcases eq_or_later_of_polls hr hp ht with ⟨rfl, rfl⟩ | ⟨pre, -, hl⟩
    · exact ⟨rfl, hq⟩
    · rw [hl] at hn
      simp at hn

theorem Run.of_poll {p : Event} (h : Run d es d') (hd : d.Consistent)
    (he : es = before ++ p :: after) (hp : p.poll?.isSome) :
    ∃ d₁, Run d before d₁ ∧ p.poll?.map Prod.fst = d₁.awaits := by
  induction h generalizing after with
  | refl => simp at he
  | configure _ policy ih => exact ih he
  | @step d₁ fs prior ih =>
    rcases List.append_eq_append_iff.mp he with ⟨pre, rfl, ht⟩ | ⟨post, rfl, ht⟩
    · obtain ⟨rfl, ha⟩ := step_of_poll (prior.consistent hd) ht hp
      exact ⟨d₁, by simpa using prior, ha⟩
    · cases post with
      | nil =>
        have ht : d₁.step.trace = [] ++ p :: after := ht.symm
        obtain ⟨-, ha⟩ := step_of_poll (prior.consistent hd) ht hp
        exact ⟨d₁, by simpa using prior, ha⟩
      | cons q post =>
        obtain ⟨rfl, -⟩ := List.cons.inj ht
        exact ih rfl

/-! ## Errors of a step -/

theorem Agrees.delivered_of_opening (h : d.Agrees (acts es)) (hp : d.phase = .opening) :
    delivered es = [] := by
  simp only [Agrees, hp, delivered_acts] at h
  exact h.1

theorem Agrees.delivered_of_streaming (h : d.Agrees (acts es)) (hp : d.phase = .streaming) :
    delivered es ≠ [] := by
  simp only [Agrees, hp, delivered_acts] at h
  exact h.1

theorem Passes.not_arises {c : Chunk} (hh : d.Passes c) :
    ¬ (Fault.lateHead c).Arises d.policy es := by
  rintro ⟨hr, hc, hn⟩
  rcases hh with hh | ⟨-, hi⟩
  · simp [Chunk.hasHead, hh] at hc
  · rw [hi] at hr
    cases hr

/-- **A step gives an error exactly if its poll found a fault**, and then that of the fault. -/
theorem error_transition {s : Step} (h : Transition d s) (hd : d.phase ≠ .finished)
    (ha : d.Agrees (acts es)) :
    ∃ p rest, s.events = p :: rest ∧ polls rest = [] ∧
      ∀ e, s.value = some (.item (.error e)) ↔
        ∃ f : Fault, f.poll = p ∧ f.Arises d.policy es ∧ f.error s.demux.pulled = e := by
  have hcall : d.Pulling → ∀ trailers, .trailersCalled trailers ∉ es := fun hp trailers hm =>
    ha.uncalled_of_pulling hp trailers ((mem_acts es rfl).mpr hm)
  cases h with
  | idle h => exact absurd h hd
  | stall h hs => exact ⟨_, _, rfl, rfl, fun e => by simp [Fault.exists_iff]⟩
  | fail h hs => exact ⟨_, _, rfl, by simp, fun e => by simp [Fault.exists_iff]⟩
  | exhaust h hs hp => exact ⟨_, _, rfl, by simp, fun e => by simp [Fault.exists_iff, hp]⟩
  | truncate h hs hp =>
    exact ⟨_, _, rfl, by simp, fun e => by simp [Fault.exists_iff, hp, hcall h, finish]⟩
  | reject h hs hh hp =>
    exact ⟨_, _, rfl, by simp, fun e => by
      simp [Fault.exists_iff, hp, hh, ha.delivered_of_streaming h, finish]⟩
  | announce h hs hh hc =>
    exact ⟨_, _, rfl, rfl, fun e => by simp [Fault.exists_iff, ha.delivered_of_opening h]⟩
  | @deliver _ c h hs hh hc =>
    have hn : ¬ (Fault.lateHead c).Arises d.policy es := hh.not_arises
    refine ⟨_, _, rfl, by simp, fun e => ?_⟩
    rw [Fault.exists_iff]
    cases c.payload? <;> simp_all
  | @close _ c _ _ h hs hh hc ht =>
    have hn : ¬ (Fault.lateHead c).Arises d.policy es := hh.not_arises
    exact ⟨_, _, rfl, by simp, fun e => by simp_all [Fault.exists_iff]⟩
  | headStall h hc => exact ⟨_, _, rfl, rfl, fun e => by simp [Fault.exists_iff]⟩
  | headFail h hc => exact ⟨_, _, rfl, by simp, fun e => by simp [Fault.exists_iff]⟩
  | @headDeliver _ _ body h hc hb =>
    exact ⟨_, _, rfl, by simp, fun e => by cases body.payload <;> simp [Fault.exists_iff]⟩
  | headClose h hc hb ht => exact ⟨_, _, rfl, rfl, fun e => by simp [Fault.exists_iff]⟩
  | trailersStall h hc => exact ⟨_, _, rfl, rfl, fun e => by simp [Fault.exists_iff]⟩
  | trailersFail h hc => exact ⟨_, _, rfl, rfl, fun e => by simp [Fault.exists_iff]⟩
  | @trailersDone _ _ payload h hc =>
    exact ⟨_, _, rfl, rfl, fun e => by cases payload <;> simp [Fault.exists_iff]⟩

/-! ## Errors of a poll -/

/-- **A poll gives an error exactly if a fault arises among its events**, and then that of the
fault; and no two faults arise among them. -/
theorem error_poll (hd : d.Consistent) (ha : d.Agrees (acts es)) :
    (∀ e, d.poll.value = .item (.error e) ↔
      ∃ f : Fault, f.In d.policy es d.poll.events ∧ f.error d.poll.demux.pulled = e) ∧
    ∀ f g : Fault, f.In d.policy es d.poll.events → g.In d.policy es d.poll.events → f = g := by
  induction d using poll_induction generalizing es with
  | answer d a hs =>
    have hn : polls [Event.answered a] = [] := rfl
    rw [poll_of_answer hs]
    by_cases hf : d.phase = .finished
    · rw [step_of_finished hf] at hs ⊢
      obtain rfl := Option.some.inj hs
      simp [Fault.not_in_of_polls hn]
    · obtain ⟨p, rest, hp, hr, hiff⟩ := error_transition (step_transition hd) hf ha
      rw [hp]
      rw [hs] at hiff
      simp only [Fault.in_cons hr, Fault.not_in_of_polls hn, or_false, and_assoc]
      refine ⟨fun e => by rw [← hiff e, Option.some.injEq], fun f g hf hg => ?_⟩
      exact Fault.poll_injective (hf.1.trans hg.1.symm)
  | go d hs ih =>
    have hf : d.phase ≠ .finished := phase_ne_finished_of_step (by simp [hs])
    obtain ⟨p, rest, hp, hr, hiff⟩ := error_transition (step_transition hd) hf ha
    have hag := (agrees_transition (step_transition hd) ha).2
    rw [← Reading.of_append, trace_of_none hs] at hag
    have hnext := ih hd.step hag
    rw [(step_transition hd).policy, hp] at hnext
    rw [poll_of_none hs, Outcome.after, hp]
    have hnone : ∀ f : Fault, ¬ (f.poll = p ∧ f.Arises d.policy es) := by
      rintro f ⟨hfp, hfa⟩
      have := (hiff _).mpr ⟨f, hfp, hfa, rfl⟩
      rw [hs] at this
      cases this
    simpa only [Fault.in_cons hr, hnone, false_or] using hnext

/-! ## After an error -/

/-- Beside its poll, a step that gives an error has releases and log entries only. -/
theorem acts_tail_of_error {s : Step} (h : Transition d s)
    (hv : s.value = some (.item (.error e))) : acts s.events.tail = [] := by
  cases h with
  | fail | exhaust | truncate | reject | headFail | trailersFail => simp
  | deliver | headDeliver => simp at hv
  | @trailersDone _ _ payload => cases payload <;> simp at hv
  | _ => cases hv

/-- **A step that gives an error does nothing else but find the fault.** -/
theorem acts_of_error {s : Step} (h : Transition d s) (ha : d.Agrees (acts es))
    (hv : s.value = some (.item (.error e))) :
    ∃ f : Fault, acts s.trace = [f.poll, .answered (.item (.error e))] ∧
      f.Arises d.policy es ∧ f.error s.demux.pulled = e ∧
      d.awaits = f.poll.poll?.map Prod.fst := by
  have hf : d.phase ≠ .finished := by
    intro hp
    cases h with
    | idle => cases hv
    | _ => simp_all [Pulling]
  obtain ⟨p, rest, hs, -, hiff⟩ := error_transition h hf ha
  obtain ⟨f, rfl, harises, he⟩ := (hiff e).mp hv
  obtain ⟨p, rest, hs', hp, -⟩ := h.begins hf
  obtain ⟨rfl, -⟩ := List.cons.inj (hs'.symm.trans hs)
  have hrest := acts_tail_of_error h hv
  rw [hs, List.tail_cons] at hrest
  have hquiet : f.poll.isQuiet = false := by cases f <;> rfl
  refine ⟨f, ?_, harises, he, hp.symm⟩
  rw [trace_of_answer hv, hs, List.cons_append, Reading.of_cons, Reading.of_append, hrest,
    acts_shows?, hquiet]
  rfl

theorem value_of_mem_items {s : Step} (h : Transition d s) (he : .error e ∈ items s.trace) :
    s.value = some (.item (.error e)) := by
  rw [Step.trace, Reading.of_append, h.items_events] at he
  rcases hv : s.value with _ | _ | i | _ <;> simp_all

/-- A run that failed: up to `d₁` it did not, then a poll found a fault under the policy that was in
force, and the error was given, and after that there were only answers that all is over. -/
structure FailedAt (d d₁ : Demux) (events before rest : List Event) (f : Fault)
    (e : StreamError) : Prop where
  run : Run d before d₁
  live : d₁.phase ≠ .finished
  arises : f.Arises d₁.policy before
  acts_eq : acts events = acts before ++ f.poll :: .answered (.item (.error e)) :: rest
  rest_eq : ∀ x ∈ rest, x = .answered .finished
  awaits_eq : d₁.awaits = f.poll.poll?.map Prod.fst

theorem Run.error_step (h : Run d es d') (hd : d.Consistent) (he : .error e ∈ items es) :
    ∃ d₁ before rest, Run d before d₁ ∧ d₁.step.value = some (.item (.error e)) ∧
      es = before ++ d₁.step.trace ++ rest ∧ (∀ x ∈ rest, x = .answered .finished) ∧
      d'.pulled = d₁.step.demux.pulled ∧ d'.phase = .finished := by
  induction h with
  | refl => simp at he
  | configure _ policy ih => exact ih he
  | @step d₂ fs prior ih =>
    rw [Reading.of_append, List.mem_append] at he
    rcases he with he | he
    · obtain ⟨d₁, before, rest, hrun, hv, rfl, hrest, hn, hp⟩ := ih he
      have hidle : d₂.step.trace = [.answered .finished] := by
        rw [step_of_finished hp]
        rfl
      refine ⟨d₁, before, rest ++ [.answered .finished], hrun, hv, ?_, ?_, ?_⟩
      · rw [hidle, List.append_assoc _ rest]
      · simpa [or_imp, forall_and] using hrest
      · rw [step_of_finished hp]
        exact ⟨hn, hp⟩
    · have ht := step_transition (prior.consistent hd)
      have hv := value_of_mem_items ht he
      exact ⟨d₂, fs, [], prior, hv, (List.append_nil _).symm, nofun, rfl,
        ht.finished_of_last hv (.inr ⟨e, rfl⟩)⟩

/-- A run with a step that gave an error failed at the fault that this step found. -/
theorem Run.failedAt {d₁ : Demux} {rest : List Event} (h : Run d before d₁) (hd : d.Consistent)
    (ha : d.Agrees []) (hv : d₁.step.value = some (.item (.error e)))
    (hrest : ∀ x ∈ rest, x = .answered .finished) :
    ∃ f, FailedAt d d₁ (before ++ d₁.step.trace ++ rest) before rest f e ∧
      f.error d₁.step.demux.pulled = e := by
  have ht := step_transition (h.consistent hd)
  obtain ⟨f, hacts, harises, hn, hw⟩ := acts_of_error ht (agrees_run h hd ha).2 hv
  have hidle : acts rest = rest := Reading.of_eq_self fun x hx => by rw [hrest x hx]; rfl
  exact ⟨f,
    { run := h
      live := phase_ne_finished_of_step (by simp [hv])
      arises := harises
      acts_eq := by rw [Reading.of_append, Reading.of_append, hacts, hidle, List.append_assoc]; rfl
      rest_eq := hrest
      awaits_eq := hw }, hn⟩

/-- **A run in which an error was given failed at a fault.** -/
theorem Run.of_error (h : Run d es d') (hd : d.Consistent) (ha : d.Agrees [])
    (he : .error e ∈ items es) :
    ∃ d₁ before rest f, FailedAt d d₁ es before rest f e ∧ f.error d'.pulled = e ∧
      d'.phase = .finished := by
  obtain ⟨d₁, before, rest, hrun, hv, rfl, hrest, hn, hp⟩ := h.error_step hd he
  obtain ⟨f, hf, hpulled⟩ := hrun.failedAt hd ha hv hrest
  exact ⟨d₁, before, rest, f, hf, by rw [hn, hpulled], hp⟩

section FailedAt

variable {d₁ : Demux} {rest : List Event} {f : Fault}

theorem FailedAt.struck (h : FailedAt d d₁ es before rest f e) : f.Struck es e :=
  ⟨acts before, rest, by rw [h.acts_eq]; simp⟩

theorem of_finished {β : Type} {r : Reading Event β} (hend : r.shows? (.answered .finished) = none)
    (hrest : ∀ x ∈ rest, x = .answered .finished) : r rest = [] :=
  Reading.of_eq_nil.mpr fun x hx => hrest x hx ▸ hend

/-- What a failed run shows of anything that neither log entries and releases nor the end show. -/
theorem FailedAt.shown {β : Type} {r : Reading Event β} (h : FailedAt d d₁ es before rest f e)
    (hend : r.shows? (.answered .finished) = none) (hacts : ∀ fs, r (acts fs) = r fs) :
    r es =
      r before ++ (r.shows? f.poll).toList ++ (r.shows? (.answered (.item (.error e)))).toList := by
  rw [← hacts es, ← hacts before, h.acts_eq, Reading.of_append, Reading.of_cons, Reading.of_cons,
    of_finished hend h.rest_eq]
  simp

theorem FailedAt.items_eq (h : FailedAt d d₁ es before rest f e) :
    items es = items before ++ [.error e] := by
  rw [h.shown rfl items_acts]
  cases f <;> simp

theorem FailedAt.delivered_eq (h : FailedAt d d₁ es before rest f e) :
    delivered es = delivered before ++ f.poll.chunk?.toList := by
  rw [h.shown rfl delivered_acts]
  simp

end FailedAt

end Demux

end ResponseFraming
