import ResponseFraming.Proofs.Parts
import ResponseFraming.Replay

/-!
# The receivers of a response

A receiver hears one thing: that its value is sent, or that none will be.  Up to then it is empty,
and afterwards it gives the value, if there is one, to the first who asks.

* `Receiver.Fits`: what a receiver is after what it has heard and what was taken from it.
* `Port`: what the two receivers of a response have in common.  `Port.fits_perform` is the step
  of `Fits` and `Port.fits_session` its run.
* `due_session`: when a receiver hears of its value, and which value that is.
* `receivers_in_lockstep`: what an attempt to receive finds, by the state of the body.
-/

namespace ResponseFraming

/-! ## One receiver -/

namespace Receiver

variable {α : Type} {r : Receiver α} {news : List (Option α)} {taken : List α}

/-- A value is sent, or none will be. -/
def hear (r : Receiver α) : Option α → Receiver α
  | some a => r.send a
  | none => r.close

/-- A receiver after some news, of which the first counts, and after some values were taken. -/
inductive Fits : Receiver α → List (Option α) → List α → Prop
  | waiting : Fits .waiting [] []
  | released (news : List (Option α)) : Fits .closed (none :: news) []
  | holding (a : α) (news : List (Option α)) : Fits (.holding a) (some a :: news) []
  | taken (a : α) (news : List (Option α)) : Fits .closed (some a :: news) [a]

theorem Fits.hear (h : Fits r news taken) (x : Option α) : Fits (r.hear x) (news ++ [x]) taken := by
  cases h with
  | waiting =>
    cases x with
    | none => exact .released []
    | some a => exact .holding a []
  | released => cases x <;> exact .released _
  | holding => cases x <;> exact .holding _ _
  | taken => cases x <;> exact .taken _ _

theorem Fits.hearAll (h : Fits r news taken) (xs : List (Option α)) :
    Fits (xs.foldl Receiver.hear r) (news ++ xs) taken := by
  induction xs generalizing r news with
  | nil => simpa using h
  | cons x xs ih => simpa using ih (h.hear x)

theorem Fits.take (h : Fits r news taken) :
    Fits r.take.2 news (taken ++ r.take.1.value?.toList) := by
  cases h with
  | waiting => exact .waiting
  | released news => exact .released news
  | holding a news => exact .taken a news
  | taken a news => exact .taken a news

/-- What an attempt to receive finds, where `live` says whether something may still come and `sent`
which value has come. -/
structure Lockstep (r : Receiver α) (taken : List α) (live : Prop) (sent : α → Prop) : Prop where
  empty_iff : r.take.1 = .empty ↔ live
  /-- The value is there until it is taken. -/
  value_iff : ∀ a, r.take.1 = .value a ↔ taken = [] ∧ sent a
  closed_iff : r.take.1 = .closed ↔ ¬ live ∧ ∀ a, sent a → taken ≠ []
  /-- Nothing else was ever taken, and nothing twice. -/
  once : taken = [] ∨ ∃ a, taken = [a] ∧ sent a

/-- Of something that is told once: nothing has been heard while it may still come, and after that
one hears that it has come or will not come. -/
def Due (live : Prop) (news : List (Option α)) (sent : Option α) : Prop :=
  (live ∧ news = [] ∧ sent = none) ∨ (¬ live ∧ news = [sent])

theorem Fits.lockstep {live : Prop} {sent : α → Prop} {value : Option α}
    (h : Fits r news taken) (hd : Due live news value) (hs : ∀ a, sent a ↔ value = some a) :
    r.Lockstep taken live sent := by
  rcases hd with ⟨hl, rfl, rfl⟩ | ⟨hl, rfl⟩
  · cases h
    constructor <;> simp [Receiver.take, hl, hs]
  · cases h <;> constructor <;> simp [Receiver.take, hl, hs, eq_comm]

end Receiver

/-! ## The two receivers of a response -/

namespace Parts

/-- What an event says about the head: that it is sent, or that none will be. -/
@[simps] def headNews : Reading Event (Option Head) where
  shows?
    | .headCalled head => some (some head)
    | .headReleased => some none
    | _ => none

@[simps] def trailersNews : Reading Event (Option (Option Trailers)) where
  shows?
    | .trailersCalled trailers => some (some trailers)
    | .trailersReleased => some none
    | _ => none

def Result.head? : Result → Option (Reception Head)
  | .head reception => some reception
  | _ => none

def Result.trailers? : Result → Option (Reception (Option Trailers))
  | .trailers reception => some reception
  | _ => none

/-- One of the two receivers: where it is, what it hears of an event and how it is used. -/
structure Port (α : Type) where
  receiver : Parts → Option (Receiver α)
  news : Reading Event (Option α)
  take : Operation
  drop : Operation
  reception? : Result → Option (Reception α)
  deliver (p : Parts) (e : Event) :
    receiver (p.deliver e) = (receiver p).map fun r => (news.shows? e).elim r r.hear
  /-- The body is another part. -/
  apart (p : Parts) (body : Option Demux) : receiver { p with body } = receiver p
  reception?_body (result : Demux.Result) : reception? (.body result) = none
  reception?_take (p : Parts) :
    reception? (p.perform take).result = (receiver p).map (·.take.1)
  /-- An operation on a receiver drops this one, leaves it alone or takes from it. -/
  perform (p : Parts) (operation : Operation) (ho : operation.body? = none) :
    operation = drop ∧ receiver (p.perform operation).parts = none ∨
      (receiver (p.perform operation).parts = receiver p ∧
        reception? (p.perform operation).result = none) ∨
      ∃ r, receiver p = some r ∧ receiver (p.perform operation).parts = some r.take.2 ∧
        reception? (p.perform operation).result = some r.take.1

def headPort : Port Head where
  receiver := Parts.head
  news := headNews
  take := .takeHead
  drop := .dropHead
  reception? := Result.head?
  deliver p e := by
    cases e <;> cases h : p.head <;>
      simp [Parts.deliver, Receiver.offer, Except.toOption, headNews, Receiver.hear, h]
  apart _ _ := rfl
  reception?_body _ := rfl
  reception?_take p := by
    rw [Parts.perform]
    cases p.head <;> rfl
  perform p operation ho := by
    cases operation with
    | body operation => cases ho
    | takeHead =>
      rw [Parts.perform]
      cases h : p.head with
      | none => exact .inr (.inl ⟨h, rfl⟩)
      | some r => exact .inr (.inr ⟨r, rfl, rfl, rfl⟩)
    | takeTrailers =>
      rw [Parts.perform]
      split <;> exact .inr (.inl ⟨rfl, rfl⟩)
    | dropHead => exact .inl ⟨rfl, rfl⟩
    | dropTrailers => exact .inr (.inl ⟨rfl, rfl⟩)

def trailersPort : Port (Option Trailers) where
  receiver := Parts.trailers
  news := trailersNews
  take := .takeTrailers
  drop := .dropTrailers
  reception? := Result.trailers?
  deliver p e := by
    cases e <;> cases h : p.trailers <;>
      simp [Parts.deliver, Receiver.offer, Except.toOption, trailersNews, Receiver.hear, h]
  apart _ _ := rfl
  reception?_body _ := rfl
  reception?_take p := by
    rw [Parts.perform]
    cases p.trailers <;> rfl
  perform p operation ho := by
    cases operation with
    | body operation => cases ho
    | takeHead =>
      rw [Parts.perform]
      split <;> exact .inr (.inl ⟨rfl, rfl⟩)
    | takeTrailers =>
      rw [Parts.perform]
      cases h : p.trailers with
      | none => exact .inr (.inl ⟨h, rfl⟩)
      | some r => exact .inr (.inr ⟨r, rfl, rfl, rfl⟩)
    | dropHead => exact .inr (.inl ⟨rfl, rfl⟩)
    | dropTrailers => exact .inl ⟨rfl, rfl⟩

namespace Port

section Session

variable {α : Type} (port : Port α)

@[simps] def values : Reading Result α where
  shows? result := (port.reception? result).bind (·.value?)

def takings (p : Parts) (operations : List Operation) : List α :=
  port.values ((p.session operations).map (·.result))

/-- A receiver of a response, unless it was dropped, fits some news and takings. -/
def Fits (p : Parts) (news : List (Option α)) (taken : List α) : Prop :=
  ∀ r, port.receiver p = some r → r.Fits news taken

theorem deliverAll (p : Parts) (es : List Event) :
    port.receiver (p.deliverAll es) =
      (port.receiver p).map fun r => (port.news es).foldl Receiver.hear r := by
  induction es generalizing p with
  | nil => cases h : port.receiver p <;> exact h
  | cons e es ih =>
    have hd : p.deliverAll (e :: es) = (p.deliver e).deliverAll es := rfl
    rw [hd, ih, port.deliver, Option.map_map]
    rw [Reading.of_cons]
    cases port.news.shows? e <;> rfl

theorem receiver_perform_body (p : Parts) (operation : Demux.Operation) :
    port.receiver (p.perform (.body operation)).parts =
      (port.receiver p).map fun r =>
        (port.news (p.perform (.body operation)).events).foldl Receiver.hear r := by
  rw [Parts.perform, port.deliverAll, port.apart]

variable {news : List (Option α)} {taken : List α}

/-- **One operation.** -/
theorem fits_perform {p : Parts} (h : port.Fits p news taken) (operation : Operation) :
    port.Fits (p.perform operation).parts
      (news ++ port.news (p.perform operation).events)
      (taken ++ (port.values.shows? (p.perform operation).result).toList) := by
  intro r hr
  cases ho : operation.body? with
  | some o =>
    obtain rfl := Operation.eq_body_of_body? ho
    rw [port.receiver_perform_body] at hr
    obtain ⟨r₀, hr₀, rfl⟩ := Option.map_eq_some_iff.mp hr
    have ht : port.values.shows? (p.perform (.body o)).result = none := by
      rw [values_shows?, Parts.perform, port.reception?_body, Option.bind_none]
    rw [ht, Option.toList_none, List.append_nil]
    exact (h r₀ hr₀).hearAll _
  | none =>
    obtain ⟨-, he⟩ := perform_of_body?_eq_none (p := p) ho
    rw [he, Reading.of_nil, List.append_nil, values_shows?]
    rcases port.perform p operation ho with ⟨-, hp⟩ | ⟨hp, ht⟩ | ⟨r₀, hr₀, hp, ht⟩
    · cases hp.symm.trans hr
    · rw [ht, Option.bind_none, Option.toList_none, List.append_nil]
      exact h r (hp.symm.trans hr)
    · obtain rfl := Option.some.inj (hp.symm.trans hr)
      rw [ht, Option.bind_some]
      exact (h r₀ hr₀).take

/-- **A whole session.** -/
theorem fits_session {p : Parts} (h : port.Fits p news taken) (operations : List Operation) :
    port.Fits (p.remaining operations) (news ++ port.news (p.record operations))
      (taken ++ port.takings p operations) := by
  induction operations generalizing p news taken with
  | nil => simpa [remaining, record, session, takings] using h
  | cons operation rest ih =>
    have hs := ih (port.fits_perform h operation)
    have ht : port.takings p (operation :: rest) =
        (port.values.shows? (p.perform operation).result).toList ++
          port.takings (p.perform operation).parts rest := Reading.of_cons _ _ _
    rw [remaining_cons, record_cons, Reading.of_append, ht]
    simpa only [List.append_assoc] using hs

theorem isSome_session {p : Parts} (h : (port.receiver p).isSome) {operations : List Operation}
    (hn : port.drop ∉ operations) : (port.receiver (p.remaining operations)).isSome := by
  induction operations generalizing p with
  | nil => exact h
  | cons operation rest ih =>
    rw [List.mem_cons, not_or] at hn
    rw [remaining_cons]
    refine ih ?_ hn.2
    cases ho : operation.body? with
    | some o =>
      obtain rfl := Operation.eq_body_of_body? ho
      rw [port.receiver_perform_body, Option.isSome_map]
      exact h
    | none =>
      rcases port.perform p operation ho with ⟨hd, -⟩ | ⟨hp, -⟩ | ⟨r, -, hp, -⟩
      · exact absurd hd.symm hn.1
      · rw [hp]
        exact h
      · rw [hp]
        rfl

/-- **A receiver keeps in step with its news.** -/
theorem lockstep_session {p : Parts} (h : port.receiver p = some .waiting)
    (operations : List Operation) {live : Prop} {sent : α → Prop} {value : Option α}
    (hd : Receiver.Due live (port.news (p.record operations)) value)
    (hs : ∀ a, sent a ↔ value = some a) :
    (port.drop ∈ operations ∨ ∃ r, port.receiver (p.remaining operations) = some r ∧
      r.Lockstep (port.takings p operations) live sent) ∧
    (¬ live →
      port.reception? ((p.remaining operations).perform port.take).result ≠ some .empty) := by
  have hstart : port.Fits p [] [] := by
    intro r hr
    obtain rfl := Option.some.inj (h.symm.trans hr)
    exact .waiting
  have hfits := port.fits_session hstart operations
  rw [List.nil_append, List.nil_append] at hfits
  refine ⟨?_, fun hl he => ?_⟩
  · by_cases hdrop : port.drop ∈ operations
    · exact .inl hdrop
    · have hsome : (port.receiver p).isSome := by rw [h]; rfl
      obtain ⟨r, hr⟩ := Option.isSome_iff_exists.mp (port.isSome_session hsome hdrop)
      exact .inr ⟨r, hr, (hfits r hr).lockstep hd hs⟩
  · rw [port.reception?_take] at he
    obtain ⟨r, hr, he⟩ := Option.map_eq_some_iff.mp he
    exact hl (((hfits r hr).lockstep hd hs).empty_iff.mp he)

end Session

end Port

/-! ## When there is news -/

/-- The trailers came with a complete chunk, and that was not rejected for a late head. -/
def Dispatched (events : List Event) (trailers : Option Trailers) : Prop :=
  (∃ c ∈ delivered events, c.completion = some ⟨trailers⟩) ∧ ¬ Rejected events

theorem dispatched_iff {events : List Event} {trailers : Option Trailers} :
    Dispatched events trailers ↔ ⟨trailers⟩ ∈ completions events ∧ ¬ Rejected events := by
  rw [Dispatched, mem_completions]

theorem dispatched_of_conclusive {events : List Event} {told : Option (Option Trailers)}
    (h : Conclusive events told) (trailers : Option Trailers) :
    Dispatched events trailers ↔ told = some trailers := by
  rw [dispatched_iff]
  cases told with
  | some t =>
    obtain ⟨hc, he⟩ := h
    have hr : ¬ Rejected events := by
      intro hr
      obtain ⟨e, hm⟩ := Demux.Rejected.error hr
      exact he e hm
    simp [hc, hr, eq_comm]
  | none =>
    rcases h with h | h
    · simp [h]
    · simp [h]

theorem news_headUse (head : Option Head) :
    headNews [headUse head] = [head] ∧ trailersNews [headUse head] = [] := by
  cases head <;> exact ⟨rfl, rfl⟩

theorem news_uses (head : Option Head) (told : Option (Option Trailers)) :
    headNews [headUse head, trailersUse told] = [head] ∧
      trailersNews [headUse head, trailersUse told] = [told] := by
  cases head <;> cases told <;> exact ⟨rfl, rfl⟩

/-- **When a receiver hears of its value**: the head's with the first chunk, and that of the
trailers with the end of the body. -/
theorem due_session (source : Transport) (policy : Policy) (operations : List Operation) :
    let start := new source policy
    let p := start.remaining operations
    let events := start.record operations
    Receiver.Due (∃ d, p.body = some d ∧ ¬ d.isFinished ∧ d.pulled = 0)
      (headNews events) (headOf events) ∧
    ∃ told, (∀ trailers, Dispatched events trailers ↔ told = some trailers) ∧
      Receiver.Due (∃ d, p.body = some d ∧ ¬ d.isFinished) (trailersNews events) told := by
  intro start p events
  let body := operations.filterMap Operation.body?
  let demux := some (Demux.new source .immediate .immediate policy)
  obtain ⟨-, hbody, hrecord⟩ := session_body (atRest_new source policy) operations
  replace hbody : p.body = Demux.remaining demux body := hbody
  replace hrecord : events = Demux.record demux body := hrecord
  have hhead : headNews (calls events) = headNews events :=
    of_calls (fun e he => by cases e <;> simp_all) events
  have htrailers : trailersNews (calls events) = trailersNews events :=
    of_calls (fun e he => by cases e <;> simp_all) events
  rw [← hhead, ← htrailers, hbody, hrecord]
  rcases Demux.told_record source policy body with
    ⟨d, hl, hp, hn, hcalls, hd⟩ | ⟨d, hl, hp, hn, hcalls, hc⟩ | ⟨hf, told, hcalls, hc⟩
  · have hlive : ¬ d.isFinished := by simp [Demux.isFinished, hp]
    rw [hcalls]
    refine ⟨.inl ⟨⟨d, hl, hlive, hn⟩, rfl, by rw [headOf, hd]; rfl⟩, none, ?_,
      .inl ⟨⟨d, hl, hlive⟩, rfl, rfl⟩⟩
    exact dispatched_of_conclusive (.inl (completions_of_delivered hd))
  · have hlive : ¬ d.isFinished := by simp [Demux.isFinished, hp]
    rw [hcalls, (news_headUse _).1, (news_headUse _).2]
    refine ⟨.inr ⟨?_, rfl⟩, none, dispatched_of_conclusive (.inl hc),
      .inl ⟨⟨d, hl, hlive⟩, rfl, rfl⟩⟩
    rintro ⟨d', hl', -, hz⟩
    obtain rfl := Option.some.inj (hl.symm.trans hl')
    omega
  · have hover : ∀ d, Demux.remaining demux body = some d → d.isFinished := fun d hl => by
      simp [Demux.isFinished, hf d hl]
    rw [hcalls, (news_uses _ _).1, (news_uses _ _).2]
    refine ⟨.inr ⟨?_, rfl⟩, told, dispatched_of_conclusive hc, .inr ⟨?_, rfl⟩⟩
    · rintro ⟨d, hl, hn, -⟩
      exact hn (hover d hl)
    · rintro ⟨d, hl, hn⟩
      exact hn (hover d hl)

/-! ## Sessions -/

theorem exists_head_iff {events : List Event} {head : Head} :
    (∃ c, (delivered events).head? = some c ∧ c.head = some head) ↔ headOf events = some head :=
  Option.bind_eq_some_iff.symm

theorem isFinished_of_over {source : Transport} {policy : Policy} {operations : List Operation}
    (h : (∃ answer, .answered answer ∈ (new source policy).record operations ∧ answer.IsLast) ∨
      ((new source policy).remaining operations).body = none)
    {d : Demux} (hd : ((new source policy).remaining operations).body = some d) :
    d.isFinished := by
  obtain ⟨-, hbody, hrecord⟩ := session_body (atRest_new source policy) operations
  rcases h with ⟨answer, hm, ha⟩ | h
  · have hnew := Demux.consistent_new source .immediate .immediate policy
    obtain ⟨hrun, -, -⟩ := Demux.run_of_remaining hnew (hbody.symm.trans hd)
    rw [hrecord] at hm
    exact decide_eq_true (hrun.finished_of_answered hnew hm ha)
  · cases h.symm.trans hd

/-- **The receivers keep in step with the body.**  Whatever operations have been carried out, an
attempt to receive the head finds nothing yet exactly while the body is there, has not finished and
has pulled no chunk; it finds the head of the first chunk, if that has one, until it has been taken;
and in all other cases it finds the receiver closed.  An attempt to receive the trailers finds
nothing yet exactly while the body is there and has not finished; it finds the trailers of the
complete chunk, if one was dispatched, until they have been taken; and else the receiver is closed.
When the body has given its last answer, or was collected or dropped, there is no waiting any
more. -/
theorem receivers_in_lockstep (source : Transport) (policy : Policy)
    (operations : List Operation) :
    let start := new source policy
    let p := start.remaining operations
    let events := start.record operations
    (.dropHead ∈ operations ∨ ∃ r, p.head = some r ∧
      r.Lockstep (headPort.takings start operations)
        (∃ d, p.body = some d ∧ ¬ d.isFinished ∧ d.pulled = 0)
        (fun head => ∃ c, (delivered events).head? = some c ∧ c.head = some head)) ∧
    (.dropTrailers ∈ operations ∨ ∃ r, p.trailers = some r ∧
      r.Lockstep (trailersPort.takings start operations)
        (∃ d, p.body = some d ∧ ¬ d.isFinished) (Dispatched events)) ∧
    ((∃ answer, .answered answer ∈ events ∧ answer.IsLast) ∨ p.body = none →
      (p.perform .takeHead).result ≠ .head .empty ∧
        (p.perform .takeTrailers).result ≠ .trailers .empty) := by
  intro start p events
  obtain ⟨hh, told, htold, ht⟩ := due_session source policy operations
  obtain ⟨hhead, hheadOver⟩ :=
    headPort.lockstep_session (p := start) rfl operations hh fun head => exists_head_iff
  obtain ⟨htrailers, htrailersOver⟩ :=
    trailersPort.lockstep_session (p := start) rfl operations ht htold
  refine ⟨hhead, htrailers, fun hover => ⟨fun he => ?_, fun he => ?_⟩⟩
  · refine hheadOver ?_ (congrArg Result.head? he)
    rintro ⟨d, hd, hn, -⟩
    exact hn (isFinished_of_over hover hd)
  · refine htrailersOver ?_ (congrArg Result.trailers? he)
    rintro ⟨d, hd, hn⟩
    exact hn (isFinished_of_over hover hd)

/-- The head is taken before the policy is set, and so it is gone; the complete chunk is rejected
for its own head, and so its trailers never come. -/
theorem receivers_in_lockstep_rejected :
    let head : Head := ⟨200, .empty⟩
    let source := [.chunk ((Chunk.ofPayload [104]).withHead head),
      .chunk ((Chunk.last none).withHead head)]
    let start := new source .default
    let operations : List Operation :=
      [.takeHead, .body .next, .takeHead, .body (.configure .strict), .body .next, .takeTrailers]
    let p := start.remaining operations
    (p.perform .takeHead).result = .head .closed ∧
      headPort.takings start operations = [head] ∧
      (p.perform .takeTrailers).result = .trailers .closed ∧
      trailersPort.takings start operations = [] ∧
      ∀ trailers, ¬ Dispatched (start.record operations) trailers := by
  intro head source start operations p
  obtain ⟨-, ht, -⟩ := receivers_in_lockstep source .default operations
  have hclosed : p.trailers = some .closed := by decide +kernel
  have hnone : trailersPort.takings start operations = [] := by decide +kernel
  refine ⟨by decide +kernel, by decide +kernel, by decide +kernel, hnone, fun trailers hd => ?_⟩
  rcases ht with hdrop | ⟨r, hr, hlock⟩
  · exact absurd hdrop (by decide)
  · obtain rfl := Option.some.inj (hclosed.symm.trans hr)
    exact (hlock.closed_iff.mp rfl).2 trailers hd hnone

end Parts

end ResponseFraming
