import ResponseFraming.Proofs.Draining

/-!
# Stricter policies

A policy that tightens another can only cut a run short.  Under both policies a
demultiplexer takes the same step, with the same events and the same answer, unless
the step meets a fault of framing that only the stricter policy minds (`Parting`,
`step_configure`).  There the stricter run ends in an error, and the other goes on
alone.

* `lockstep`: the induction on both drains, step by step.
* `Curtails`: what a drain under a stricter policy has in common with the other drain.
* `CurtailsAtEnd`: the same where only the choice about truncation is raised.
-/

namespace ResponseFraming

/-! ## Policies -/

/-- Each choice of the first policy is that of the second, or the stricter one. -/
def Policy.Tightens (q p : Policy) : Prop :=
  (q.truncation = p.truncation ∨ q.truncation = .strict) ∧
    (q.lateHead = p.lateHead ∨ q.lateHead = .reject)

instance (q p : Policy) : Decidable (q.Tightens p) :=
  inferInstanceAs (Decidable (_ ∧ _))

/-! ## Events of a part -/

/-- Whether an event is a poll, a call or a release. -/
@[simp] def Event.isDealing : Event → Bool
  | .log _ | .answered _ => false
  | _ => true

/-- Whether an event is a call, a poll or the release of the head callback. -/
@[simp] def Event.isHead : Event → Bool
  | .headCalled _ | .headPolled _ | .headReleased => true
  | _ => false

@[simps] def dealings : Reading Event Event where
  shows? e := if e.isDealing then some e else none

@[simps] def headDealings : Reading Event Event where
  shows? e := if e.isHead then some e else none

def Outcome.configure {α : Type} (o : Outcome α) (policy : Policy) : Outcome α :=
  { o with demux := o.demux.configure policy }

namespace Demux

variable {d d' : Demux} {es : List Event} {policy : Policy}

/-! ## A step under two policies -/

theorem advance_configure (d : Demux) (policy : Policy) (body : Body) :
    (d.configure policy).advance body = (d.advance body).configure policy := by
  obtain ⟨source, onHead, onTrailers, own, phase, pulled⟩ := d
  obtain ⟨payload, completion⟩ := body
  cases completion <;> cases onTrailers <;> rfl

theorem accept_configure (d : Demux) (policy : Policy) (body : Body) :
    acceptBy advance (d.configure policy) body = (acceptBy advance d body).configure policy := by
  rw [acceptBy, advance_configure]
  rfl

theorem receiveFirst_configure (d : Demux) (policy : Policy) (head : Option Head) (body : Body) :
    receiveFirstBy advance (d.configure policy) head body =
      (receiveFirstBy advance d head body).configure policy := by
  obtain ⟨source, onHead, onTrailers, own, phase, pulled⟩ := d
  cases onHead with
  | none => exact accept_configure _ _ _
  | some callback =>
    cases head with
    | some head => rfl
    | none =>
      exact congrArg (Outcome.after · [.log .noHead, .headReleased])
        (accept_configure ⟨source, none, onTrailers, own, phase, pulled⟩ policy body)

theorem receiveLater_configure {head : Option Head} (body : Body)
    (h : head = none ∨ policy.lateHead = d.policy.lateHead) :
    receiveLaterBy advance (d.configure policy) head body =
      (receiveLaterBy advance d head body).configure policy := by
  cases head with
  | none => exact accept_configure _ _ _
  | some head =>
    have hp : (d.configure policy).policy.lateHead = d.policy.lateHead := h.resolve_left (by simp)
    cases hl : d.policy.lateHead with
    | reject =>
      simp only [receiveLaterBy, hp, hl]
      rfl
    | ignore =>
      simp only [receiveLaterBy, hp, hl, accept_configure]
      rfl

theorem receive_of_opening (h : d.phase = .opening) (c : Chunk) :
    receiveBy advance d c =
      (receiveFirstBy advance { d with pulled := d.pulled + 1 } c.facets.1 c.facets.2).after
        [.log (.pulled (d.pulled + 1) c.shape)] := by simp only [receiveBy, if_pos h]

theorem receive_of_later (h : d.phase ≠ .opening) (c : Chunk) :
    receiveBy advance d c =
      (receiveLaterBy advance { d with pulled := d.pulled + 1 } c.facets.1 c.facets.2).after
        [.log (.pulled (d.pulled + 1) c.shape)] := by simp only [receiveBy, if_neg h]

theorem receive_configure {c : Chunk}
    (h : d.phase = .opening ∨ c.head = none ∨ policy.lateHead = d.policy.lateHead) :
    receiveBy advance (d.configure policy) c = (receiveBy advance d c).configure policy := by
  let counted : Demux := { d with pulled := d.pulled + 1 }
  by_cases hp : d.phase = .opening
  · have hp' : (d.configure policy).phase = .opening := hp
    rw [receive_of_opening hp, receive_of_opening hp']
    exact congrArg (Outcome.after · _) (receiveFirst_configure counted policy _ _)
  · have hp' : (d.configure policy).phase ≠ .opening := hp
    rw [receive_of_later hp, receive_of_later hp']
    exact congrArg (Outcome.after · _)
      (receiveLater_configure (d := counted) c.facets.2 (h.resolve_left hp))

theorem endOfTransport_configure (h : policy.truncation = d.policy.truncation) :
    (d.configure policy).endOfTransport = d.endOfTransport.configure policy := by
  have hp : (d.configure policy).policy.truncation = d.policy.truncation := h
  rw [endOfTransport, endOfTransport, hp]
  cases d.policy.truncation <;> rfl

theorem awaitHead_configure (d : Demux) (policy : Policy) (callback : Callback) (body : Body) :
    awaitHeadBy advance (d.configure policy) callback body =
      (awaitHeadBy advance d callback body).configure policy := by
  rcases hc : callback.poll with ⟨_ | _ | e, callback'⟩
  · simp only [awaitHeadBy, hc]
    rfl
  · simp only [awaitHeadBy, hc, advance_configure]
    rfl
  · simp only [awaitHeadBy, hc]
    rfl

theorem awaitTrailers_configure (d : Demux) (policy : Policy) (callback : Callback)
    (payload : Option Bytes) :
    (d.configure policy).awaitTrailers callback payload =
      (d.awaitTrailers callback payload).configure policy := by
  rcases hc : callback.poll with ⟨_ | _ | e, callback'⟩ <;> simp only [awaitTrailers, hc] <;> rfl

/-- The next step meets a fault of framing that the stricter policy minds and the demultiplexer's
own does not. -/
inductive Parting (d : Demux) (policy : Policy) : Prop
  | truncation {source : Transport} (h : d.Pulling) (hs : d.source.poll = (.ended, source))
      (hl : d.policy.truncation = .lenient) (hr : policy.truncation = .strict)
  | lateHead {source : Transport} {c : Chunk} (h : d.phase = .streaming)
      (hs : d.source = .chunk c :: source) (hh : c.hasHead) (hl : d.policy.lateHead = .ignore)
      (hr : policy.lateHead = .reject)

theorem pull_configure_of_ended {source : Transport} (hp : policy.Tightens d.policy)
    (h : d.Pulling) (hs : d.source.poll = (.ended, source)) :
    d.Parting policy ∨
      pullBy advance (d.configure policy) = (pullBy advance d).configure policy := by
  have hs' : (d.configure policy).source.poll = (.ended, source) := hs
  by_cases ht : policy.truncation = d.policy.truncation
  · have := endOfTransport_configure (d := { d with source }) ht
    simp only [pullBy, hs, hs']
    exact .inr (congrArg (Outcome.after · [.transportPolled .ended]) this)
  · have hr : policy.truncation = .strict := hp.1.resolve_left ht
    refine .inl (.truncation h hs ?_ hr)
    cases hl : d.policy.truncation with
    | lenient => rfl
    | strict => exact absurd (hr.trans hl.symm) ht

theorem pull_configure_of_chunk {source : Transport} {c : Chunk} (hp : policy.Tightens d.policy)
    (h : d.Pulling) (hs : d.source = .chunk c :: source) :
    d.Parting policy ∨
      pullBy advance (d.configure policy) = (pullBy advance d).configure policy := by
  have hs' : (d.configure policy).source = .chunk c :: source := hs
  by_cases hl : d.phase = .opening ∨ c.head = none ∨ policy.lateHead = d.policy.lateHead
  · have := receive_configure (d := { d with source }) hl
    simp only [pullBy, hs, hs']
    exact .inr (congrArg (Outcome.after · [.transportPolled (.chunk c)]) this)
  · -- a late head, about which the policies differ
    simp only [not_or] at hl
    obtain ⟨hopen, hhead, hlate⟩ := hl
    have hr : policy.lateHead = .reject := hp.2.resolve_left hlate
    refine .inl (.lateHead (h.resolve_left hopen) hs (Option.isSome_iff_ne_none.mpr hhead) ?_ hr)
    cases hi : d.policy.lateHead with
    | ignore => rfl
    | reject => exact absurd (hr.trans hi.symm) hlate

theorem pull_configure (hp : policy.Tightens d.policy) (h : d.Pulling) :
    d.Parting policy ∨
      pullBy advance (d.configure policy) = (pullBy advance d).configure policy := by
  cases hs : d.source with
  | nil =>
    have hended : d.source.poll = (.ended, []) := by rw [hs]; rfl
    exact pull_configure_of_ended hp h hended
  | cons signal source =>
    have hs' : (d.configure policy).source = signal :: source := hs
    cases signal with
    | ended =>
      have hended : d.source.poll = (.ended, source) := by rw [hs]; rfl
      exact pull_configure_of_ended hp h hended
    | chunk c => exact pull_configure_of_chunk hp h hs
    | pending | failed e =>
      simp only [pullBy, hs, hs']
      exact .inr rfl

/-- **A step is the same under a stricter policy**, or the two runs part here. -/
theorem step_configure (hp : policy.Tightens d.policy) :
    d.Parting policy ∨ (d.configure policy).step = d.step.configure policy := by
  have hphase : (d.configure policy).phase = d.phase := rfl
  cases h : d.phase with
  | opening => simpa only [step, stepBy, hphase, h] using pull_configure hp (.inl h)
  | streaming => simpa only [step, stepBy, hphase, h] using pull_configure hp (.inr h)
  | announcing callback body =>
    simpa only [step, stepBy, hphase, h] using .inr (awaitHead_configure d policy callback body)
  | closing callback payload =>
    simpa only [step, stepBy, hphase, h] using
      .inr (awaitTrailers_configure d policy callback payload)
  | finished =>
    simp only [step, stepBy, hphase, h]
    exact .inr rfl

/-! ## After the head -/

/-- The head callback has been released, or has been called and has come to its end. -/
def Greeted (d : Demux) : Prop :=
  d.phase ≠ .opening ∧ ∀ callback body, d.phase ≠ .announcing callback body

theorem Greeted.onHead_eq_none (h : d.Greeted) (hd : d.Consistent) : d.onHead = none := by
  cases hp : d.phase with
  | opening => exact absurd hp h.1
  | announcing callback body => exact absurd hp (h.2 callback body)
  | _ =>
    simp only [Consistent, hp] at hd
    exact hd.1

theorem headDealings_releases (h : d.onHead = none) : headDealings d.releases = [] := by
  cases ht : d.onTrailers <;> simp [releases, h, ht]

theorem headDealings_headNotes (h : d.phase ≠ .opening) (c : Chunk) :
    headDealings (d.headNotes c) = [] := by
  unfold headNotes
  split
  · exact absurd ‹_› h
  · rfl
  · rfl

theorem greeted_transition {s : Step} (h : Transition d s) (hd : d.Consistent) (hg : d.Greeted) :
    headDealings s.trace = [] ∧ s.demux.Greeted := by
  have hr := headDealings_releases (hg.onHead_eq_none hd)
  cases h with
  | idle => simpa [Step.trace] using hg
  | stall => exact ⟨by simp [Step.trace], hg⟩
  | announce h => exact absurd h hg.1
  | deliver =>
    rw [Step.trace_giving]
    simp [headDealings_headNotes hg.1, Greeted]
  | close => simp [Step.trace, headDealings_headNotes hg.1, Greeted]
  | headStall h | headFail h | headDeliver h | headClose h => exact absurd h (hg.2 _ _)
  | trailersStall => simp [Step.trace, Greeted]
  | _ => simp [Step.trace, hr, Greeted, finish]

theorem greeted_steps (h : Steps d es d') (hd : d.Consistent) (hg : d.Greeted) :
    headDealings es = [] ∧ d'.Greeted := by
  induction h with
  | refl => exact ⟨rfl, hg⟩
  | tail prior ih =>
    obtain ⟨hs, hg'⟩ := greeted_transition (step_transition (prior.consistent hd))
      (prior.consistent hd) ih.2
    exact ⟨by rw [Reading.of_append, ih.1, hs]; rfl, hg'⟩

/-! ## Where two runs part -/

theorem step_of_ended {source : Transport} (h : d.Pulling) (hs : d.source.poll = (.ended, source)) :
    d.step = ({ d with source }.endOfTransport).after [.transportPolled .ended] := by
  rcases h with h | h <;> simp only [step, stepBy, h, pullBy, hs]

@[simp] theorem releases_configure (d : Demux) (policy : Policy) :
    (d.configure policy).releases = d.releases := rfl

theorem drain_of_truncation {source : Transport} (h : d.Pulling)
    (hs : d.source.poll = (.ended, source)) (hp : d.policy.truncation = .strict) :
    d.drain = ⟨{ d with source }.finish,
      .transportPolled .ended :: d.releases ++ [.log (.truncationRejected d.pulled),
        .answered (.item (.error (.framing (.truncated d.pulled)))), .answered .finished],
      [.error (.framing (.truncated d.pulled))]⟩ := by
  have hstep := step_of_ended h hs
  have hr : ({ d with source } : Demux).policy.truncation = .strict := hp
  rw [endOfTransport, hr] at hstep
  rw [drain_of_error hstep rfl rfl]
  simp [Outcome.after, Step.trace, releases]

theorem drain_of_exhausted {source : Transport} (h : d.Pulling)
    (hs : d.source.poll = (.ended, source)) (hp : d.policy.truncation = .lenient) :
    d.drain = ⟨{ d with source }.finish,
      .transportPolled .ended :: d.releases ++
        [.log (if d.pulled = 0 then .endedEmpty else .endedIncomplete d.pulled),
          .answered .finished],
      []⟩ := by
  have hstep := step_of_ended h hs
  have hl : ({ d with source } : Demux).policy.truncation = .lenient := hp
  rw [endOfTransport, hl] at hstep
  rw [drain_of_end (by rw [hstep]; rfl), hstep]
  simp [Outcome.after, Step.trace, releases]

theorem drain_of_rejection {source : Transport} {c : Chunk} (h : d.phase = .streaming)
    (hs : d.source = .chunk c :: source) (hh : c.hasHead) (hp : d.policy.lateHead = .reject) :
    d.drain = ⟨{ d with source, pulled := d.pulled + 1 }.finish,
      [.transportPolled (.chunk c), .log (.pulled (d.pulled + 1) c.shape)] ++ d.releases ++
        [.answered (.item (.error (.framing (.lateHead (d.pulled + 1))))), .answered .finished],
      [.error (.framing (.lateHead (d.pulled + 1)))]⟩ := by
  obtain ⟨head, hc⟩ := Option.isSome_iff_exists.mp hh
  have hstep : d.step = ⟨{ d with source, pulled := d.pulled + 1 }.finish,
      [.transportPolled (.chunk c), .log (.pulled (d.pulled + 1) c.shape)] ++ d.releases,
      some (.item (.error (.framing (.lateHead (d.pulled + 1)))))⟩ := by
    simp [step, stepBy, pullBy, hs, Transport.poll, receiveBy, h, receiveLaterBy, hp, Chunk.facets,
      hc, fail, finishWith, releases, Outcome.after]
  rw [drain_of_error hstep rfl rfl]
  simp [Step.trace]

/-- A drain that goes on where the other is rejected pulls one chunk more at least, and has nothing
more to do with the head callback. -/
theorem drain_of_streaming {source : Transport} {c : Chunk} (h : d.phase = .streaming)
    (hd : d.Consistent) (hs : d.source = .chunk c :: source) :
    headDealings d.drain.events = [] ∧ d.pulled + 1 ≤ d.drain.demux.pulled := by
  have hg : d.Greeted := by simp [Greeted, h]
  refine ⟨(greeted_steps (steps_drain d) hd hg).1, ?_⟩
  have hstep : d.step =
      (receiveBy advance { d with source } c).after [.transportPolled (.chunk c)] := by
    simp only [step, stepBy, h, pullBy, hs, Transport.poll]
  have hfirst := pulled_transition (step_transition hd)
  have hrest := pulled_steps (steps_drain d.step.demux) hd.step
  have hdrain : d.drain.demux.pulled = d.step.demux.drain.demux.pulled ∨
      d.drain.demux.pulled = d.step.demux.pulled := by
    by_cases hv : d.step.value = some .finished
    · exact .inr (by rw [drain_of_end hv])
    · exact .inl (by rw [drain_of_step hv]; rfl)
  have hpos : 0 < (delivered d.step.trace).length := by
    rw [hstep]
    simp [Step.trace, Outcome.after]
  omega

end Demux

/-! ## Two drains -/

namespace Outcome

variable {tight loose : Outcome (List Item)}

/-- What a drain under a stricter policy has in common with the other. -/
structure Curtails (tight loose : Outcome (List Item)) : Prop where
  payloads_isPrefix : payloads tight.value <+: payloads loose.value
  pulled_le : tight.demux.pulled ≤ loose.demux.pulled
  head_eq : headDealings tight.events = headDealings loose.events
  /-- It is not cut short but by a fault of framing. -/
  eq_of_sound : (∀ v, tight.value.getLast? ≠ some (.error (.framing v))) →
    tight.value = loose.value ∧ tight.events = loose.events ∧
      tight.demux.pulled = loose.demux.pulled

/-- What it has in common where only the choice about truncation is raised. -/
structure CurtailsAtEnd (tight loose : Outcome (List Item)) : Prop where
  value_eq : tight.value = loose.value ∨
    tight.value = loose.value ++ [.error (.framing (.truncated tight.demux.pulled))]
  pulled_eq : tight.demux.pulled = loose.demux.pulled
  dealings_eq : dealings tight.events = dealings loose.events

theorem Curtails.withStep (h : tight.Curtails loose) (s : Step) :
    (tight.withStep s).Curtails (loose.withStep s) where
  payloads_isPrefix := by
    simpa [Outcome.withStep, map, after] using h.payloads_isPrefix
  pulled_le := h.pulled_le
  head_eq := by simp [Outcome.withStep, map, after, h.head_eq]
  eq_of_sound := by
    intro hn
    obtain ⟨hv, he, hp⟩ := h.eq_of_sound fun v hl => hn v (by
      simp [Outcome.withStep, map, after, List.getLast?_append, hl])
    simp [Outcome.withStep, map, after, hv, he, hp]

theorem CurtailsAtEnd.withStep (h : tight.CurtailsAtEnd loose) (s : Step) :
    (tight.withStep s).CurtailsAtEnd (loose.withStep s) where
  value_eq := by
    rcases h.value_eq with hv | hv <;> simp [Outcome.withStep, map, after, hv]
  pulled_eq := h.pulled_eq
  dealings_eq := by simp [Outcome.withStep, map, after, h.dealings_eq]

end Outcome

namespace Demux

open Outcome

variable {d : Demux} {policy : Policy}

/-- **Two drains in step**: what holds where the runs part and where both end, and is kept by a step
that both take, holds of a drain under a policy and one under a stricter policy. -/
theorem lockstep {motive : Outcome (List Item) → Outcome (List Item) → Prop} {own : Policy}
    (part : ∀ d : Demux, d.Consistent → d.policy = own → d.Parting policy →
      motive (d.configure policy).drain d.drain)
    (finish : ∀ (d : Demux) (es : List Event), motive ⟨d.configure policy, es, []⟩ ⟨d, es, []⟩)
    (step : ∀ s tight loose, motive tight loose → motive (tight.withStep s) (loose.withStep s))
    (hp : policy.Tightens own) (h : d.Consistent) (ho : d.policy = own) :
    motive (d.configure policy).drain d.drain := by
  -- along the steps of the looser run; the stricter one takes the same step, or `part` applies
  induction d using step_induction with
  | finished d hv =>
    rcases step_configure (d := d) (by rwa [ho]) with hpart | hs
    · exact part d h ho hpart
    · rw [drain_of_end hv, drain_of_end (by rw [hs]; exact hv), hs]
      exact finish _ _
  | step d hv ih =>
    rcases step_configure (d := d) (by rwa [ho]) with hpart | hs
    · exact part d h ho hpart
    · rw [drain_of_step hv, drain_of_step (by rw [hs]; exact hv), hs]
      exact step d.step _ _ (ih h.step ((step_transition h).policy.trans ho))

theorem curtails_of_parting (hd : d.Consistent) (h : d.Parting policy) :
    (d.configure policy).drain.Curtails d.drain := by
  cases h with
  | truncation h hs hl hr =>
    rw [drain_of_exhausted h hs hl, drain_of_truncation (d := d.configure policy) h hs hr]
    exact
      { payloads_isPrefix := List.prefix_refl _
        pulled_le := Nat.le_refl _
        head_eq := by simp
        eq_of_sound := fun hn => absurd rfl (hn _) }
  | lateHead h hs hh hl hr =>
    obtain ⟨hhead, hpulled⟩ := drain_of_streaming h hd hs
    have hn : headDealings d.releases = [] :=
      headDealings_releases (Greeted.onHead_eq_none (by simp [Greeted, h]) hd)
    rw [drain_of_rejection (d := d.configure policy) h hs hh hr]
    exact
      { payloads_isPrefix := List.nil_prefix
        pulled_le := hpulled
        head_eq := by simp [hhead, hn]
        eq_of_sound := fun hn => absurd rfl (hn _) }

theorem curtailsAtEnd_of_parting (hl : policy.lateHead = d.policy.lateHead)
    (h : d.Parting policy) : (d.configure policy).drain.CurtailsAtEnd d.drain := by
  cases h with
  | truncation h hs hl hr =>
    rw [drain_of_exhausted h hs hl, drain_of_truncation (d := d.configure policy) h hs hr]
    exact
      { value_eq := .inr rfl
        pulled_eq := rfl
        dealings_eq := by simp }
  | lateHead _ _ _ hi hr =>
    rw [hi, hr] at hl
    cases hl

/-- **Stricter policies only cut runs short.**

Of two drains of the same transport with the same callbacks, the one under the stricter policy gives
the first of the payloads that the other gives, pulls no more chunks, and does the same with the
head callback.  Unless it ends in an error of framing, it gives the same items, has the same events
and pulls as many chunks.  Where only the choice about truncation is raised, the two have the same
polls, calls and releases and pull as many chunks, and the stricter one gives the same items, or one
more, which is the error that the response was truncated there. -/
theorem curtails_of_tightens (source : Transport) (onHead onTrailers : Callback)
    (policy own : Policy) (h : policy.Tightens own) :
    let tight := (new source onHead onTrailers policy).drain
    let loose := (new source onHead onTrailers own).drain
    tight.Curtails loose ∧ (policy.lateHead = own.lateHead → tight.CurtailsAtEnd loose) := by
  have hd := consistent_new source onHead onTrailers own
  refine ⟨?_, fun hl => ?_⟩
  · refine lockstep (motive := Curtails) (fun d hd _ => curtails_of_parting hd) ?_
      (fun s _ _ h => h.withStep s) h hd rfl
    exact fun d es => ⟨List.prefix_refl _, Nat.le_refl _, rfl, fun _ => ⟨rfl, rfl, rfl⟩⟩
  · refine lockstep (motive := CurtailsAtEnd)
      (fun d _ ho => curtailsAtEnd_of_parting (by rw [hl, ho])) ?_
      (fun s _ _ h => h.withStep s) h hd rfl
    exact fun d es => ⟨.inl rfl, rfl, rfl⟩

/-- A response whose last chunk has a late head, under a policy that ignores it and one that rejects
it; and a response that is cut off, where only truncation is raised. -/
theorem curtails_of_tightens_lateHead :
    let first := (Chunk.ofPayload [104]).withHead ⟨200, .empty⟩
    let last := first.complete none
    let late : Transport := [.chunk first, .pending, .chunk last]
    let tight := (new late ⟨1, none⟩ .immediate .strict).drain
    let loose := (new late ⟨1, none⟩ .immediate .default).drain
    let cut : Transport := [.pending, .chunk first]
    Policy.strict.Tightens .default ∧ tight.Curtails loose ∧
      tight.value = [.payload [104], .error (.framing (.lateHead 2))] ∧
      loose.value = [.payload [104], .payload [104]] ∧
      (new cut ⟨1, none⟩ .immediate ⟨.strict, .ignore⟩).drain.CurtailsAtEnd
        (new cut ⟨1, none⟩ .immediate .default).drain := by
  intro first last late tight loose cut
  have h : Policy.strict.Tightens .default := by decide
  obtain ⟨hlate, -⟩ := curtails_of_tightens late ⟨1, none⟩ .immediate .strict .default h
  obtain ⟨-, hcut⟩ := curtails_of_tightens cut ⟨1, none⟩ .immediate ⟨.strict, .ignore⟩ .default
    (by decide)
  exact ⟨h, hlate, by decide +kernel, by decide +kernel, hcut rfl⟩

end Demux

end ResponseFraming
