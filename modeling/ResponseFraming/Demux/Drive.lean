import ResponseFraming.Demux.Basic

/-!
# Driving a demultiplexer

`poll` runs steps until one answers, `next` polls until the answer is not pending, `drain` takes
all items, and `gather` and `collect` take payloads up to the first error.

All of them end because every step of a demultiplexer that has not finished makes its `weight`
smaller (`weight_step_lt`), and so does every poll and every `next` that gives an item.
-/

namespace ResponseFraming

/-- How many polls with a pending answer a callback will still take. -/
def Callback.remaining (callback : Option Callback) : Nat := (callback.map (·.delay)).getD 0

def Phase.weight : Phase → Nat
  | .announcing callback _ => callback.delay + 3
  | .closing callback _ => callback.delay + 2
  | .opening | .streaming => 1
  | .finished => 0

namespace Demux

/-- A bound on the steps to come. -/
def weight (d : Demux) : Nat :=
  3 * d.source.length + Callback.remaining d.onHead + Callback.remaining d.onTrailers +
    d.phase.weight

theorem weight_finish_le (d : Demux) : d.finish.weight ≤ 3 * d.source.length := by
  simp [weight, finish, Callback.remaining, Phase.weight]

theorem weight_advance_lt (d : Demux) (body : Body) :
    (d.advance body).demux.weight <
      3 * d.source.length + Callback.remaining d.onHead + Callback.remaining d.onTrailers + 3 := by
  have h := d.weight_finish_le
  unfold advance
  split
  · rename_i callback _ hc
    simp only [weight, hc, Phase.weight, Callback.remaining, Option.map_some, Option.getD_some,
      Option.map_none, Option.getD_none]
    omega
  · simp only [finishWith]
    omega
  · simp only [weight, Phase.weight]
    omega

theorem weight_accept_lt (d : Demux) (body : Body) :
    (acceptBy advance d body).demux.weight <
      3 * d.source.length + Callback.remaining d.onHead + Callback.remaining d.onTrailers + 3 :=
  d.weight_advance_lt body

theorem weight_receive_lt (d : Demux) (c : Chunk) :
    (receiveBy advance d c).demux.weight <
      3 * d.source.length + Callback.remaining d.onHead + Callback.remaining d.onTrailers + 4 := by
  simp only [receiveBy, Outcome.after]
  split
  · unfold receiveFirstBy
    split
    · rename_i callback _ hc _
      replace hc : d.onHead = some callback := hc
      simp only [weight, hc, Phase.weight, Callback.remaining, Option.map_some, Option.getD_some,
        Option.map_none, Option.getD_none]
      omega
    · refine Nat.lt_of_lt_of_le (weight_accept_lt _ _) ?_
      simp only [Callback.remaining, Option.map_none, Option.getD_none]
      omega
    · exact Nat.lt_succ_of_lt (weight_accept_lt _ _)
  · unfold receiveLaterBy
    split
    · refine Nat.lt_of_le_of_lt (weight_finish_le _) ?_
      simp only
      omega
    · exact Nat.lt_succ_of_lt (weight_accept_lt _ _)
    · exact Nat.lt_succ_of_lt (weight_accept_lt _ _)

theorem weight_endOfTransport_le (d : Demux) :
    d.endOfTransport.demux.weight ≤ 3 * d.source.length := by
  unfold endOfTransport
  split <;> exact d.weight_finish_le

theorem weight_pull_lt (d : Demux) (h : 1 ≤ d.phase.weight) :
    (pullBy advance d).demux.weight < d.weight := by
  obtain ⟨source, onHead, onTrailers, policy, phase, pulled⟩ := d
  cases source with
  | nil =>
    refine Nat.lt_of_le_of_lt (weight_endOfTransport_le _) ?_
    simp only [weight] at h ⊢
    omega
  | cons signal rest =>
    cases signal with
    | pending => simp [pullBy, Transport.poll, Outcome.after, weight]
    | failed e =>
      refine Nat.lt_of_le_of_lt (weight_finish_le _) ?_
      simp only [weight, List.length_cons] at h ⊢
      omega
    | ended =>
      refine Nat.lt_of_le_of_lt (weight_endOfTransport_le _) ?_
      simp only [weight, List.length_cons] at h ⊢
      omega
    | chunk c =>
      refine Nat.lt_of_lt_of_le (weight_receive_lt _ c) ?_
      simp only [weight, List.length_cons] at h ⊢
      omega

theorem weight_awaitHead_lt (d : Demux) {callback : Callback} {body : Body}
    (h : d.phase = .announcing callback body) :
    (awaitHeadBy advance d callback body).demux.weight < d.weight := by
  have hd := d.weight_finish_le
  have ha := d.weight_advance_lt body
  have hw : d.weight = 3 * d.source.length + Callback.remaining d.onHead +
      Callback.remaining d.onTrailers + (callback.delay + 3) := by rw [weight, h, Phase.weight]
  obtain ⟨delay, failure⟩ := callback
  cases delay with
  | succ delay => simp [awaitHeadBy, Callback.poll, Outcome.after, weight, h, Phase.weight]
  | zero =>
    cases failure <;>
      simp only [awaitHeadBy, Callback.poll, Outcome.after, fail, finishWith] <;> omega

theorem weight_awaitTrailers_lt (d : Demux) {callback : Callback} {payload : Option Bytes}
    (h : d.phase = .closing callback payload) :
    (d.awaitTrailers callback payload).demux.weight < d.weight := by
  have hd := d.weight_finish_le
  have hw : d.weight = 3 * d.source.length + Callback.remaining d.onHead +
      Callback.remaining d.onTrailers + (callback.delay + 2) := by rw [weight, h, Phase.weight]
  obtain ⟨delay, failure⟩ := callback
  cases delay with
  | succ delay => simp [awaitTrailers, Callback.poll, Outcome.after, weight, h, Phase.weight]
  | zero =>
    cases failure <;>
      simp only [awaitTrailers, Callback.poll, Outcome.after, fail, finishWith] <;> omega

theorem weight_step_lt (d : Demux) (h : d.phase ≠ .finished) :
    d.step.demux.weight < d.weight := by
  unfold step stepBy
  split
  · rename_i hp
    exact d.weight_pull_lt (by simp [hp, Phase.weight])
  · rename_i hp
    exact d.weight_pull_lt (by simp [hp, Phase.weight])
  · rename_i hp
    exact d.weight_awaitHead_lt hp
  · rename_i hp
    exact d.weight_awaitTrailers_lt hp
  · rename_i hp
    exact absurd hp h

theorem step_of_finished {d : Demux} (h : d.phase = .finished) :
    d.step = ⟨d, [], some .finished⟩ := by simp [step, stepBy, h]

theorem phase_ne_finished_of_step {d : Demux} (h : d.step.value ≠ some .finished) :
    d.phase ≠ .finished := fun hp => h (by rw [step_of_finished hp])

def poll (d : Demux) : Outcome Answer :=
  match _h : d.step with
  | ⟨d', events, some answer⟩ => ⟨d', events ++ [.answered answer], answer⟩
  | ⟨d', events, none⟩ => (poll d').after events
termination_by d.weight
decreasing_by
  have hw := d.weight_step_lt (phase_ne_finished_of_step (by simp [_h]))
  rwa [_h] at hw

theorem poll_of_answer {d : Demux} {answer : Answer} (h : d.step.value = some answer) :
    d.poll = ⟨d.step.demux, d.step.events ++ [.answered answer], answer⟩ := by
  rw [poll]
  split
  · simp_all
  · simp_all

theorem poll_of_none {d : Demux} (h : d.step.value = none) :
    d.poll = d.step.demux.poll.after d.step.events := by
  rw [poll]
  split
  · simp_all
  · simp_all

theorem weight_poll_lt (d : Demux) (h : d.poll.value ≠ .finished) :
    d.poll.demux.weight < d.weight := by
  induction hw : d.weight using Nat.strongRecOn generalizing d with
  | ind w ih =>
    subst hw
    cases hs : d.step.value with
    | some answer =>
      rw [poll_of_answer hs] at h ⊢
      exact d.weight_step_lt (phase_ne_finished_of_step (by rw [hs]; simpa using h))
    | none =>
      have hlt := d.weight_step_lt (phase_ne_finished_of_step (by simp [hs]))
      rw [poll_of_none hs] at h ⊢
      exact Nat.lt_trans (ih _ hlt _ h rfl) hlt

def next (d : Demux) : Outcome Answer :=
  match _h : d.poll with
  | ⟨d', events, .pending⟩ => (next d').after events
  | outcome => outcome
termination_by d.weight
decreasing_by
  have hw := d.weight_poll_lt (by simp [_h])
  rwa [_h] at hw

theorem next_of_pending {d : Demux} (h : d.poll.value = .pending) :
    d.next = d.poll.demux.next.after d.poll.events := by
  rw [next]
  split
  · simp_all
  · rename_i hn
    exact absurd (by rw [← h]) (hn d.poll.demux d.poll.events)

theorem next_of_ready {d : Demux} (h : d.poll.value ≠ .pending) : d.next = d.poll := by
  rw [next]
  split
  · simp_all
  · rfl

theorem weight_next_lt (d : Demux) (h : d.next.value ≠ .finished) :
    d.next.demux.weight < d.weight := by
  induction hw : d.weight using Nat.strongRecOn generalizing d with
  | ind w ih =>
    subst hw
    by_cases hp : d.poll.value = .pending
    · have hlt := d.weight_poll_lt (by simp [hp])
      rw [next_of_pending hp] at h ⊢
      exact Nat.lt_trans (ih _ hlt _ h rfl) hlt
    · rw [next_of_ready hp] at h ⊢
      exact d.weight_poll_lt h

/-- All items up to the end of the stream; an error does not stop it. -/
def drain (d : Demux) : Outcome (List Item) :=
  match _h : d.next with
  | ⟨d', events, .item i⟩ => ((drain d').map (i :: ·)).after events
  | ⟨d', events, _⟩ => ⟨d', events, []⟩
termination_by d.weight
decreasing_by
  have hw := d.weight_next_lt (by simp [_h])
  rwa [_h] at hw

/-- The payloads up to the end of the stream or the first error, with that error. -/
def gather (d : Demux) : Outcome (List Bytes × Option StreamError) :=
  match _h : d.next with
  | ⟨d', events, .item (.payload bytes)⟩ =>
    ((gather d').map fun (payloads, error) => (bytes :: payloads, error)).after events
  | ⟨d', events, .item (.error e)⟩ => ⟨d', events, ([], some e)⟩
  | ⟨d', events, _⟩ => ⟨d', events, ([], none)⟩
termination_by d.weight
decreasing_by
  have hw := d.weight_next_lt (by simp [_h])
  rwa [_h] at hw

theorem drain_of_item {d : Demux} {i : Item} (h : d.next.value = .item i) :
    d.drain = (d.next.demux.drain.map (i :: ·)).after d.next.events := by
  rw [drain]
  split
  · simp_all
  · rename_i hn heq
    exact absurd (by rw [← h, heq]) (hn i)

theorem drain_of_finished {d : Demux} (h : d.next.value = .finished) :
    d.drain = ⟨d.next.demux, d.next.events, []⟩ := by
  rw [drain]
  split
  · simp_all
  · rename_i heq
    rw [heq]

theorem gather_of_payload {d : Demux} {bytes : Bytes} (h : d.next.value = .item (.payload bytes)) :
    d.gather =
      (d.next.demux.gather.map fun (payloads, error) => (bytes :: payloads, error)).after
        d.next.events := by
  rw [gather]
  split
  · simp_all
  · simp_all
  · rename_i hn _ heq
    exact absurd (by rw [← h, heq]) (hn bytes)

theorem gather_of_error {d : Demux} {e : StreamError} (h : d.next.value = .item (.error e)) :
    d.gather = ⟨d.next.demux, d.next.events, ([], some e)⟩ := by
  rw [gather]
  split
  · simp_all
  · simp_all
  · rename_i hn heq
    exact absurd (by rw [← h, heq]) (hn e)

theorem gather_of_finished {d : Demux} (h : d.next.value = .finished) :
    d.gather = ⟨d.next.demux, d.next.events, ([], none)⟩ := by
  rw [gather]
  split
  · simp_all
  · simp_all
  · rename_i heq
    rw [heq]

/-- The whole body in one piece, or the first error. -/
def collect (d : Demux) : Outcome Item :=
  d.gather.map fun (payloads, error) => error.elim (.payload payloads.flatten) .error

end Demux

end ResponseFraming
