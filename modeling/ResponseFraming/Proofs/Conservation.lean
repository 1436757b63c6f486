import ResponseFraming.Proofs.Discipline

/-!
# Conservation of payloads

A demultiplexer holds back at most one payload, that of the chunk whose callback
is in flight.  What a step finds held and what it takes from the transport is what
it gives and what it leaves held (`balance_transition`), so along a run the
payloads given, followed by the one held, are those of the chunks delivered
(`balance_run`).  An error breaks the balance by the last chunk at most: a fault of
the transport loses none, any other fault loses that chunk (`Fault.passed`).

* `Holding`: which chunk is held back, with the callback that was called for it.
* `payloads_conserved`: what a session has given and holds in any state that it reaches.
-/

namespace ResponseFraming

@[simp] def Item.payload? : Item → Option Bytes
  | .payload bytes => some bytes
  | .error _ => none

@[simps] def payloads : Reading Item Bytes := ⟨Item.payload?⟩

@[simps] def contents : Reading Chunk Bytes := ⟨Chunk.payload?⟩

/-- The chunks whose payloads are given before a fault. -/
def Fault.passed (f : Fault) (chunks : List Chunk) : List Chunk :=
  match f with
  | .transport _ | .truncation => chunks
  | .lateHead _ | .head _ | .trailers _ => chunks.dropLast

@[simp] theorem payloads_map (bs : List Bytes) : payloads (bs.map .payload) = bs := by
  induction bs <;> simp_all

@[simp] theorem payloads_given (payload : Option Bytes) :
    payloads (payload.map Item.payload).toList = payload.toList := by cases payload <;> rfl

namespace Demux

variable {d d' : Demux} {es : List Event} {e : StreamError}

def held (d : Demux) : Option Bytes :=
  match d.phase with
  | .announcing _ body => body.payload
  | .closing _ payload => payload
  | _ => none

theorem held_of_pulling (h : d.Pulling) : d.held = none := by
  rcases h with h | h <;> simp [held, h]

theorem held_of_awaits (h : d.awaits = some .transport) : d.held = none := by
  cases hp : d.phase <;> simp_all [awaits, held]

@[simp] theorem held_finish (d : Demux) : d.finish.held = none := rfl

/-- **The balance of a step**: what was held and what came is what is given and what is held. -/
theorem balance_transition {s : Step} (h : Transition d s)
    (hv : ∀ e, s.value ≠ some (.item (.error e))) :
    d.held.toList ++ contents (delivered s.trace) =
      payloads (items s.trace) ++ s.demux.held.toList := by
  rw [← delivered_acts, ← items_acts]
  cases h with
  | idle h => simp [Step.trace]
  | stall h => simp [Step.trace, held]
  | fail h => exact absurd rfl (hv _)
  | exhaust h => simp [Step.trace, held_of_pulling h]
  | truncate h => exact absurd rfl (hv _)
  | reject h => exact absurd rfl (hv _)
  | announce h => simp [Step.trace, held, h, Chunk.facets_payload]
  | deliver h =>
    rw [Step.trace_giving, held_of_pulling h]
    simp [held]
  | close h =>
    rw [held_of_pulling h]
    simp [Step.trace, held]
  | headStall h => simp [Step.trace, held, h]
  | headFail h => exact absurd rfl (hv _)
  | headDeliver h =>
    rw [Step.trace_giving]
    simp [held, h]
  | headClose h => simp [Step.trace, held, h]
  | trailersStall h => simp [Step.trace, held, h]
  | trailersFail h => exact absurd rfl (hv _)
  | @trailersDone _ _ payload h =>
    have hheld : d.held = payload := by simp [held, h]
    cases payload <;> simp [Step.trace, hheld]

theorem pulled_transition {s : Step} (h : Transition d s) :
    s.demux.pulled = d.pulled + (delivered s.trace).length := by
  rw [← delivered_acts]
  cases h with
  | deliver | headDeliver => rw [Step.trace_giving]; simp
  | _ => simp [Step.trace, finish]

/-! ## What is held back -/

/-- The chunk held back is the last that came, and its callback has been called. -/
def Holding (d : Demux) (events : List Event) : Prop :=
  match d.phase with
  | .announcing _ body =>
    ∃ c head, (delivered events).getLast? = some c ∧ c.facets.2 = body ∧ c.head = some head ∧
      .headCalled head ∈ events
  | .closing _ payload =>
    ∃ c trailers, (delivered events).getLast? = some c ∧ c.payload? = payload ∧
      c.completion = some ⟨trailers⟩ ∧ .trailersCalled trailers ∈ events
  | _ => True

theorem Holding.held_eq (h : d.Holding es) {callback : Party} (ha : d.awaits = some callback)
    (hc : callback ≠ .transport) :
    ∃ c, (delivered es).getLast? = some c ∧ d.held = c.payload? := by
  cases hp : d.phase with
  | announcing _ body =>
    simp only [Holding, hp] at h
    obtain ⟨c, head, hl, rfl, -⟩ := h
    exact ⟨c, hl, by simp only [held, hp, Chunk.facets_payload]⟩
  | closing _ payload =>
    simp only [Holding, hp] at h
    obtain ⟨c, trailers, hl, rfl, -⟩ := h
    exact ⟨c, hl, by simp [held, hp]⟩
  | _ => simp_all [awaits]

theorem holding_acts : d.Holding (acts es) ↔ d.Holding es := by
  unfold Holding
  split <;> simp only [delivered_acts, fun head => mem_acts es (e := .headCalled head) rfl,
    fun trailers => mem_acts es (e := .trailersCalled trailers) rfl]

theorem holding_transition {s : Step} (h : Transition d s) (hh : d.Holding es) :
    s.demux.Holding (es ++ acts s.trace) := by
  cases h with
  | idle h => simp [Holding, h]
  | stall h => rcases h with h | h <;> simp [Holding, h]
  | @announce _ c head _ h hs hc =>
    exact ⟨c, head, by simp [Step.trace], rfl, hc, by simp [Step.trace]⟩
  | @close _ c completion _ h hs hh hc =>
    exact ⟨c, completion.trailers, by simp [Step.trace], rfl, hc, by simp [Step.trace]⟩
  | headStall h => simpa [Holding, h, Step.trace] using hh
  | @headClose _ _ _ body completion h hc hb =>
    simp only [Holding, h] at hh
    obtain ⟨c, head, hl, rfl, -⟩ := hh
    exact ⟨c, completion.trailers, by simpa [Step.trace] using hl, (Chunk.facets_payload c).symm,
      hb, by simp [Step.trace]⟩
  | trailersStall h => simpa [Holding, h, Step.trace] using hh
  | _ => trivial

/-! ## Runs -/

/-- The number of chunks, the chunk that is held back and, before any error, the balance. -/
theorem balance_run (h : Run d es d') (hd : d.Consistent) (hp : d.phase = .opening) :
    d'.pulled = (delivered es).length ∧ d'.Holding (acts es) ∧
      ((∀ e, .error e ∉ items es) →
        payloads (items es) ++ d'.held.toList = contents (delivered es)) := by
  induction h with
  | refl =>
    simp only [Consistent, hp] at hd
    simp [hd.2.2, Holding, held, hp]
  | step prior ih =>
    obtain ⟨hn, hh, hb⟩ := ih
    have ht := step_transition (prior.consistent hd)
    refine ⟨?_, ?_, fun he => ?_⟩
    · rw [pulled_transition ht, hn, Reading.of_append, List.length_append]
    · rw [Reading.of_append]
      exact holding_transition ht hh
    · simp only [Reading.of_append, List.mem_append, not_or] at he
      have hv := balance_transition ht fun e hv => (he e).2 (by simp [Step.trace, hv])
      rw [Reading.of_append, Reading.of_append, List.append_assoc, ← hv, ← List.append_assoc,
        hb fun e => (he e).1, Reading.of_append, Reading.of_append]
  | configure _ policy ih => exact ih

theorem contents_dropLast {cs : List Chunk} {c : Chunk} (h : cs.getLast? = some c) :
    contents cs = contents cs.dropLast ++ c.payload?.toList := by
  obtain ⟨ds, rfl⟩ := List.getLast?_eq_some_iff.mp h
  simp

/-- **What was given before an error** are the payloads of the chunks that passed the fault. -/
theorem FailedAt.payloads_eq {d₁ : Demux} {before rest : List Event} {f : Fault}
    (h : FailedAt d d₁ es before rest f e) (hd : d.Consistent) (hp : d.phase = .opening) :
    payloads (items es) = contents (f.passed (delivered es)) := by
  -- Up to the step that found the fault nothing is lost; it remains to see what that step held.
  obtain ⟨-, -, hi⟩ := (standing_run h.run hd (standing_of_opening hp)).unfailed h.live
  obtain ⟨-, hh, hb⟩ := balance_run h.run hd hp
  replace hb := hb (by simpa only [items_acts] using hi)
  have hall : d₁.awaits = some .transport →
      payloads (items before) = contents (delivered before) := by
    intro hw
    rwa [held_of_awaits hw, Option.toList_none, List.append_nil] at hb
  have hlast : ∀ callback, d₁.awaits = some callback → callback ≠ .transport →
      payloads (items before) = contents (delivered before).dropLast := by
    intro callback hw hc
    obtain ⟨c, hl, hheld⟩ := hh.held_eq hw hc
    rw [delivered_acts] at hl
    rw [hheld, contents_dropLast hl] at hb
    exact List.append_cancel_right hb
  have hw := h.awaits_eq
  rw [h.items_eq, h.delivered_eq]
  cases f with
  | transport e => simpa [Fault.passed] using hall hw
  | truncation => simpa [Fault.passed] using hall hw
  | lateHead c => simpa [Fault.passed] using hall hw
  | head e => simpa [Fault.passed] using hlast .head hw (by simp)
  | trailers e => simpa [Fault.passed] using hlast .trailers hw (by simp)

/-! ## Sessions -/

/-- The payloads given, and the one that is held back, account for the chunks delivered. -/
structure Conserved (d : Demux) (events : List Event) (given : List Item) : Prop where
  pulled : d.pulled = (delivered events).length
  /-- Before an error nothing is lost, doubled, merged or out of order. -/
  whole : (∀ e, .error e ∉ given) → payloads given ++ d.held.toList = contents (delivered events)
  /-- What is held back is of the last chunk, whose callback has been called. -/
  holding : d.Holding events
  /-- A callback that is awaited has been called and has not come to its end. -/
  unresolved : ∀ party, d.awaits = some party → MayPoll events party
  /-- An error costs the last chunk at most, and none if the transport is at fault. -/
  failed : ∀ e, .error e ∈ given →
    ∃ f : Fault, f.Struck events e ∧ f.error d.pulled = e ∧
      payloads given = contents (f.passed (delivered events))

/-- **Payloads are conserved** in every state that a session reaches. -/
theorem payloads_conserved (source : Transport) (onHead onTrailers : Callback) (policy : Policy)
    (operations : List Operation) (d : Demux)
    (h : remaining (some (new source onHead onTrailers policy)) operations = some d) :
    let start := some (new source onHead onTrailers policy)
    d.Conserved (record start operations) (received start operations) := by
  intro start
  have hnew := consistent_new source onHead onTrailers policy
  obtain ⟨hrun, hgiven, -⟩ := run_of_remaining hnew h
  obtain ⟨hn, hh, hb⟩ := balance_run hrun hnew rfl
  have hs := standing_run hrun hnew (standing_of_opening rfl)
  rw [hgiven]
  exact
    { pulled := hn
      whole := hb
      holding := holding_acts.mp hh
      unresolved := fun party ha => mayPoll_acts.mp (hs.mayPoll ha)
      failed := fun e he => by
        obtain ⟨d₁, before, rest, f, hf, hn, -⟩ := hrun.of_error hnew (agrees_new _ _ _ _) he
        exact ⟨f, hf.struck, hn, hf.payloads_eq hnew rfl⟩ }

/-- The payload of a last chunk is held while the trailer callback is pending, and lost when that
fails. -/
theorem payloads_conserved_closing :
    let first := (Chunk.ofPayload [104]).withHead ⟨200, .empty⟩
    let last := (Chunk.ofPayload [105]).complete none
    let failure : StreamError := .callback "late"
    let start := some (new [.chunk first, .chunk .empty, .chunk last] .immediate ⟨1, some failure⟩
      .default)
    let held : Demux := ⟨[], none, none, .strict, .closing ⟨0, some failure⟩ (some [105]), 3⟩
    let failed : Demux := { held with phase := .finished }
    let operations : List Operation := [.next, .configure .strict, .poll]
    remaining start operations = some held ∧
      received start operations = [.payload [104]] ∧
      held.Conserved (record start operations) (received start operations) ∧
      remaining start (operations ++ [.poll]) = some failed ∧
      received start (operations ++ [.poll]) = [.payload [104], .error failure] ∧
      failed.Conserved (record start (operations ++ [.poll]))
        (received start (operations ++ [.poll])) := by
  intro first last failure start held failed operations
  have hh : remaining start operations = some held := by decide +kernel
  have hf : remaining start (operations ++ [.poll]) = some failed := by decide +kernel
  exact ⟨hh, by decide +kernel, payloads_conserved _ _ _ _ operations held hh, hf,
    by decide +kernel, payloads_conserved _ _ _ _ (operations ++ [.poll]) failed hf⟩

end Demux

end ResponseFraming
