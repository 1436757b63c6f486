import ResponseFraming.Proofs.Conservation

/-!
# Bounds on polls

A poll is a loop of steps, and what is left of the transport bounds its turns: a step
that gives no answer takes a chunk from the transport, or comes after the head callback,
which is called once (`silent_transition`).

How many polls there can be before the end is bounded by the `outlook` of a
demultiplexer: by the pauses that may still come, the payloads that may still be given
and one error.  Every answer but the end takes one of these (`outlook_transition`), and
policies have no part in it.
-/

namespace ResponseFraming

/-- Whether an element of a transport is a chunk with a payload. -/
@[simp] def Signal.carries : Signal → Bool
  | .chunk c => c.payload?.isSome
  | _ => false

@[simp] def Phase.delay : Phase → Nat
  | .announcing callback _ | .closing callback _ => callback.delay
  | _ => 0

/-- One turn more than there are chunks, for the head callback. -/
@[simp] def Phase.detour : Phase → Nat
  | .opening | .announcing .. => 1
  | _ => 0

theorem Transport.poll_snd (source : Transport) : source.poll.2 = source.drop 1 := by
  cases source <;> rfl

theorem Transport.sublist_of_poll {source source' : Transport} {signal : Signal}
    (h : source.poll = (signal, source')) : source'.Sublist source := by
  obtain rfl : source.drop 1 = source' := by rw [← Transport.poll_snd, h]
  exact List.drop_sublist 1 source

theorem Callback.delay_of_pending {callback callback' : Callback}
    (h : callback.poll = (.pending, callback')) : callback.delay = callback'.delay + 1 := by
  rcases callback with ⟨_ | delay, _ | e⟩ <;> cases h <;> rfl

theorem Callback.remaining_none : Callback.remaining none = 0 := rfl

theorem Callback.remaining_some (callback : Callback) :
    Callback.remaining (some callback) = callback.delay := rfl

theorem transportPolls_append (es fs : List Event) :
    transportPolls (es ++ fs) = transportPolls es + transportPolls fs := List.countP_append

theorem transportPolls_eq_countP (es : List Event) :
    transportPolls es = (polls es).countP (·.1 = .transport) := by
  rw [transportPolls, Reading.of, List.countP_filterMap]
  congr 1
  funext e
  cases e <;> rfl

namespace Demux

variable {d d' : Demux} {es : List Event}

theorem Pulling.ne_finished (h : d.Pulling) : d.phase ≠ .finished := by
  rcases h with h | h <;> simp [h]

/-! ## The loop of a poll -/

/-- A loop of steps: so many that give no answer, and one that does. -/
inductive Loop : Demux → Nat → Outcome Answer → Prop
  | answer {d : Demux} {answer : Answer} (h : d.step.value = some answer) :
      Loop d 0 ⟨d.step.demux, d.step.trace, answer⟩
  | go {d : Demux} {n : Nat} {o : Outcome Answer} (h : d.step.value = none)
      (rest : Loop d.step.demux n o) : Loop d (n + 1) (o.after d.step.trace)

/-- A bound on the steps without an answer. -/
def turns (d : Demux) : Nat := d.source.length + d.phase.detour

theorem turns_le (d : Demux) : d.turns ≤ d.source.length + 1 := by
  unfold turns Phase.detour
  split <;> omega

theorem transportPolls_transition {s : Step} (h : Transition d s) :
    transportPolls s.trace = if d.awaits = some .transport then 1 else 0 := by
  rw [transportPolls_eq_countP, Step.trace, Reading.of_append, polls_answer, polls_transition h]
  rcases d.awaits with _ | _ | _ | _ <;> simp

theorem source_transition {s : Step} (h : Transition d s) :
    s.demux.source = d.source.drop (transportPolls s.trace) := by
  rw [transportPolls_transition h]
  cases h with
  | idle h => simp [awaits, h]
  | stall h hs | fail h hs | deliver h hs | close h hs => simp [awaits_of_pulling h, hs, finish]
  | reject h hs => simp [awaits_of_pulling (.inr h), hs, finish]
  | announce h hs => simp [awaits_of_pulling (.inl h), hs]
  | exhaust h hs | truncate h hs =>
    rw [if_pos (awaits_of_pulling h), ← Transport.poll_snd, hs]
    rfl
  | headStall h | headFail h | headDeliver h | headClose h | trailersStall h | trailersFail h
  | trailersDone h => simp [awaits, h, finish]

/-- **What is left of the transport** after a run. -/
theorem source_run (h : Run d es d') (hd : d.Consistent) :
    d'.source = d.source.drop (transportPolls es) := by
  induction h with
  | refl => rfl
  | step prior ih =>
    rw [source_transition (step_transition (prior.consistent hd)), ih, List.drop_drop,
      transportPolls_append]
  | configure _ policy ih => exact ih

/-- **A step without an answer** takes a turn, and finds a chunk if it polls the transport. -/
theorem silent_transition {s : Step} (h : Transition d s) (hv : s.value = none) :
    s.demux.turns < d.turns ∧
      transportPolls s.trace + s.demux.source.length = d.source.length := by
  rw [transportPolls_transition h]
  cases h with
  | announce h hs =>
    rw [if_pos (awaits_of_pulling (.inl h))]
    simp only [turns, Phase.detour, h, hs, List.length_cons]
    omega
  | deliver h hs | close h hs =>
    rw [if_pos (awaits_of_pulling h)]
    simp only [turns, Phase.detour, hs, List.length_cons]
    omega
  | headDeliver h | headClose h => simp [awaits, turns, h]
  | _ => cases hv

/-- **A poll returns** after at most so many turns, and polls the transport once more at most than
there is something left of it. -/
theorem loop_poll (h : d.Consistent) :
    (∃ n ≤ d.turns, d.Loop n d.poll) ∧ transportPolls d.poll.events ≤ d.source.length + 1 := by
  induction d using poll_induction with
  | answer d a hs =>
    have hp := transportPolls_transition (step_transition h)
    rw [poll_of_answer hs, ← trace_of_answer hs]
    refine ⟨⟨0, Nat.zero_le _, .answer hs⟩, ?_⟩
    rw [hp]
    split <;> omega
  | go d hs ih =>
    obtain ⟨⟨n, hn, hloop⟩, hpolls⟩ := ih h.step
    obtain ⟨ht, hsource⟩ := silent_transition (step_transition h) hs
    rw [poll_of_none hs, ← trace_of_none hs]
    refine ⟨⟨n + 1, by omega, .go hs hloop⟩, ?_⟩
    simp only [Outcome.after, transportPolls_append]
    omega

/-! ## The outlook -/

/-- A bound on the answers to come before the end. -/
def outlook (d : Demux) : Nat :=
  d.source.count .pending + Callback.remaining d.onHead + Callback.remaining d.onTrailers +
    d.phase.delay + d.source.countP Signal.carries + d.held.toList.length +
    if d.phase = .finished then 0 else 1

/-- Whether a step gives an answer that is not the end. -/
def cost : Option Answer → Nat
  | none | some .finished => 0
  | some _ => 1

theorem cost_le_one (answer : Option Answer) : cost answer ≤ 1 := by
  unfold cost
  split <;> omega

theorem cost_payload (payload : Option Bytes) :
    cost (payload.map fun bytes => .item (.payload bytes)) = payload.toList.length := by
  cases payload <;> rfl

theorem outlook_of_pulling (h : d.Pulling) :
    d.outlook = d.source.count .pending + Callback.remaining d.onHead +
      Callback.remaining d.onTrailers + d.source.countP Signal.carries + 1 := by
  rcases h with h | h <;> simp [outlook, h, held]

theorem outlook_of_announcing {callback : Callback} {body : Body}
    (h : d.phase = .announcing callback body) :
    d.outlook = d.source.count .pending + Callback.remaining d.onHead +
      Callback.remaining d.onTrailers + callback.delay + d.source.countP Signal.carries +
      body.payload.toList.length + 1 := by
  simp [outlook, h, held]

theorem outlook_of_closing {callback : Callback} {payload : Option Bytes}
    (h : d.phase = .closing callback payload) :
    d.outlook = d.source.count .pending + Callback.remaining d.onHead +
      Callback.remaining d.onTrailers + callback.delay + d.source.countP Signal.carries +
      payload.toList.length + 1 := by
  simp [outlook, h, held]

theorem outlook_finish (d : Demux) :
    d.finish.outlook = d.source.count .pending + d.source.countP Signal.carries := by
  simp [outlook, finish, Callback.remaining, held]

/-- **The end of a stream costs some of the outlook**: a pause or a payload that is still in the
transport was there before. -/
theorem outlook_of_end (h : d.phase ≠ .finished) (hs : d'.source.Sublist d.source)
    (answer : Option Answer) : d'.finish.outlook + cost answer ≤ d.outlook := by
  have hpending := hs.count_le .pending
  have hpayloads := hs.countP_le (p := Signal.carries)
  have hcost := cost_le_one answer
  rw [outlook_finish, outlook, if_neg h]
  omega

theorem outlook_of_chunk {source : Transport} {c : Chunk} (h : d.Pulling)
    (hs : d.source = .chunk c :: source) :
    d.outlook = source.count .pending + Callback.remaining d.onHead +
      Callback.remaining d.onTrailers + source.countP Signal.carries +
      c.payload?.toList.length + 1 := by
  have hn : (Signal.chunk c :: source).count .pending = source.count .pending :=
    List.count_cons_of_ne (by simp)
  rw [outlook_of_pulling h, hs, hn]
  cases hp : c.payload? <;> simp [hp, Nat.add_assoc]

/-- **Every answer but the end costs some of the outlook**, and no step adds to it. -/
theorem outlook_transition {s : Step} (h : Transition d s) :
    s.demux.outlook + cost s.value ≤ d.outlook := by
  cases h with
  | idle h => exact Nat.le_refl _
  | stall h hs =>
    -- the pause that is answered was counted
    rw [outlook_of_pulling h, outlook_of_pulling (by simpa [Pulling] using h), hs]
    simp only [cost, List.count_cons_self, List.countP_cons, Signal.carries]
    omega
  | fail h hs =>
    exact outlook_of_end h.ne_finished (by simp [hs]) _
  | exhaust h hs | truncate h hs =>
    exact outlook_of_end h.ne_finished (Transport.sublist_of_poll hs) _
  | reject h hs =>
    exact outlook_of_end (by simp [h]) (by simp [hs]) _
  | announce h hs hh hc =>
    -- the callback goes into the phase and the payload is held, so both are counted there
    rw [outlook_of_chunk (.inl h) hs, outlook_of_announcing rfl, hc, Chunk.facets_payload]
    simp only [cost, Callback.remaining_none, Callback.remaining_some]
    omega
  | deliver h hs =>
    rw [outlook_of_chunk h hs, outlook_of_pulling (.inr rfl), cost_payload]
    simp only [Callback.remaining_none]
    omega
  | close h hs hh hc ht =>
    rw [outlook_of_chunk h hs, outlook_of_closing rfl, ht]
    simp only [cost, Callback.remaining_none, Callback.remaining_some]
    omega
  | headStall h hc =>
    rw [outlook_of_announcing h, outlook_of_announcing rfl, Callback.delay_of_pending hc]
    simp only [cost]
    omega
  | trailersStall h hc =>
    rw [outlook_of_closing h, outlook_of_closing rfl, Callback.delay_of_pending hc]
    simp only [cost]
    omega
  | headDeliver h =>
    rw [outlook_of_announcing h, outlook_of_pulling (.inr rfl), cost_payload]
    dsimp only
    omega
  | headClose h hc hb ht =>
    rw [outlook_of_announcing h, outlook_of_closing rfl, ht]
    simp only [cost, Callback.remaining_none, Callback.remaining_some]
    omega
  | headFail h | trailersFail h | trailersDone h =>
    exact outlook_of_end (by simp [h]) (List.Sublist.refl _) _

theorem outlook_poll (h : d.Consistent) (hv : d.poll.value ≠ .finished) :
    d.poll.demux.outlook < d.outlook := by
  induction d using poll_induction with
  | answer d a hs =>
    rw [poll_of_answer hs] at hv ⊢
    have hcost := outlook_transition (step_transition h)
    have hone : cost d.step.value = 1 := by
      rw [hs]
      cases a with
      | finished => exact absurd rfl hv
      | _ => rfl
    show d.step.demux.outlook < d.outlook
    omega
  | go d hs ih =>
    rw [poll_of_none hs] at hv ⊢
    have hcost := outlook_transition (step_transition h)
    exact Nat.lt_of_lt_of_le (ih h.step hv) (by omega)

theorem outlook_new (source : Transport) (onHead onTrailers : Callback) (policy : Policy) :
    (new source onHead onTrailers policy).outlook =
      source.count .pending + onHead.delay + onTrailers.delay + source.countP Signal.carries + 1 :=
  outlook_of_pulling (.inl rfl)

/-- **More polls than the outlook has answers find the end**, whatever policies are set between. -/
theorem finished_of_polls {operations : List Operation} (h : d.Consistent)
    (ho : ∀ operation ∈ operations, operation = .poll ∨ ∃ policy, operation = .configure policy)
    (hc : d.outlook < operations.count .poll) :
    .answer .finished ∈ (session (some d) operations).map (·.result) := by
  induction operations generalizing d with
  | nil => exact absurd hc (Nat.not_lt_zero _)
  | cons operation rest ih =>
    have hrest := fun operation hm => ho operation (List.mem_cons_of_mem _ hm)
    rw [session, List.map_cons, List.mem_cons]
    rcases ho operation List.mem_cons_self with rfl | ⟨policy, rfl⟩
    · by_cases hv : d.poll.value = .finished
      · exact .inl (by rw [perform?, perform, hv])
      · have hlt := outlook_poll h hv
        rw [List.count_cons_self] at hc
        exact .inr (ih ((steps_poll d).consistent h) hrest (by omega))
    · rw [List.count_cons_of_ne (by simp)] at hc
      exact .inr (ih (h.configure policy) hrest hc)

/-! ## Sessions -/

/-- **Every poll returns, and the end comes.**

In any state that a session reaches, what is left of the transport is what has not been polled of
it; a poll is a loop of steps that comes to an answer, after at most one turn more than there are
elements left; and it polls the transport at most once more than that.  From the beginning, if
polls are asked for with any policies set between, one of as many finds the end as there are pauses
of the transport and of the callbacks and chunks with a payload, and two more. -/
theorem polls_bounded (source : Transport) (onHead onTrailers : Callback) (policy : Policy) :
    let start := some (new source onHead onTrailers policy)
    (∀ operations d, remaining start operations = some d →
      d.source = source.drop (transportPolls (record start operations)) ∧
      (∃ n ≤ d.source.length + 1, d.Loop n d.poll) ∧
      transportPolls d.poll.events ≤ d.source.length + 1) ∧
    ∀ operations : List Operation,
      (∀ operation ∈ operations, operation = .poll ∨ ∃ policy, operation = .configure policy) →
      source.count .pending + onHead.delay + onTrailers.delay + source.countP Signal.carries + 2 ≤
        operations.count .poll →
      .answer .finished ∈ (session start operations).map (·.result) := by
  intro start
  have hnew := consistent_new source onHead onTrailers policy
  constructor
  · intro operations d h
    obtain ⟨hrun, -, -⟩ := run_of_remaining hnew h
    obtain ⟨⟨n, hn, hloop⟩, hpolls⟩ := loop_poll (hrun.consistent hnew)
    exact ⟨source_run hrun hnew, ⟨n, Nat.le_trans hn d.turns_le, hloop⟩, hpolls⟩
  · intro operations ho hc
    refine finished_of_polls hnew ho ?_
    rw [outlook_new]
    omega

/-- A response that is cut off after a pause and a payload: the fourth poll finds the end, and the
third does not. -/
theorem polls_bounded_truncated :
    let source : Transport := [.pending, .chunk (.ofPayload [104])]
    let start := some (new source .immediate .immediate .default)
    let operations : List Operation := [.poll, .configure .strict, .poll, .poll]
    let d : Demux := ⟨[.chunk (.ofPayload [104])], some .immediate, some .immediate, .strict,
      .opening, 0⟩
    remaining start [.poll, .configure .strict] = some d ∧ (∃ n ≤ 2, d.Loop n d.poll) ∧
      .answer .finished ∉ (session start operations).map (·.result) ∧
      .answer .finished ∈ (session start (operations ++ [.poll])).map (·.result) := by
  intro source start operations d
  obtain ⟨hpoll, hend⟩ := polls_bounded source .immediate .immediate .default
  have hd : remaining start [.poll, .configure .strict] = some d := by decide +kernel
  obtain ⟨-, hloop, -⟩ := hpoll _ d hd
  have ho : ∀ operation ∈ operations ++ [.poll],
      operation = .poll ∨ ∃ policy, operation = .configure policy := by simp [operations]
  exact ⟨hd, hloop, by decide +kernel, hend (operations ++ [.poll]) ho (by decide)⟩

end Demux

end ResponseFraming
