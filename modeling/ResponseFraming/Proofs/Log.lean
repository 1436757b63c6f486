import ResponseFraming.Proofs.Conservation

/-!
# The log of a response

Three kinds of log entries say what became of the chunks: that one was pulled, that
it was skipped, and that its payload was given (`notes`).  Up to any point of a run they are
those of the chunks that are done with, one chunk after the other, and of a chunk that
is held back or was stopped by an error there is only that it was pulled (`ledger_run`).

A chunk is skipped if it has metadata only, but the first one is not said to be if
it has a head; and the payload of a complete chunk is given without a word.

* `Chunk.entries`: what the log says of a chunk that is kept.
* `Kept`: the chunks that no error stopped.
* `log_of_drain`: the three kinds of entries in the log of a drain, and when the last two leave
  nothing out; `log_of_drain_silent` is a drain that leaves out both.
-/

namespace ResponseFraming

/-! ## Entries -/

def Event.entry? : Event → Option LogEntry
  | .log entry => some entry
  | _ => none

/-- An entry that says what became of a chunk. -/
@[simp] def Event.note? : Event → Option LogEntry
  | .log (.pulled index shape) => some (.pulled index shape)
  | .log (.metadataSkipped index) => some (.metadataSkipped index)
  | .log (.yielding length) => some (.yielding length)
  | _ => none

def logged (message : String) (events : List Event) : List LogEntry :=
  (events.filterMap Event.entry?).filter fun entry => entry.message = message

@[simps] def notes : Reading Event LogEntry := ⟨Event.note?⟩

theorem Event.note?_log (entry : LogEntry) :
    note? (.log entry) = none ∨ note? (.log entry) = some entry := by
  cases entry <;> simp

/-- The messages of such entries. -/
def noteMessages : List String :=
  ["pulled chunk", "yielding payload", "skipping metadata-only chunk"]

theorem Event.note?_of_message {entry : LogEntry} (h : entry.message ∈ noteMessages) :
    note? (.log entry) = some entry := by
  cases entry <;> first | rfl | simp [LogEntry.message, noteMessages] at h

theorem logged_eq_filter_notes {message : String} (h : message ∈ noteMessages)
    (events : List Event) :
    logged message events = (notes events).filter fun entry => entry.message = message := by
  rw [logged, Reading.of, List.filter_filterMap, List.filter_filterMap]
  congr 1
  funext e
  rw [notes_shows?]
  cases e with
  | log entry =>
    by_cases hm : entry.message = message
    · rw [Event.note?_of_message (hm ▸ h)]
      rfl
    · rcases Event.note?_log entry with hn | hn
      · rw [hn]
        exact Option.filter_some_neg (by simpa using hm)
      · rw [hn]
        rfl
  | _ => rfl

/-! ## Chunks -/

/-- What the log says of chunk number `i`, if that is kept. -/
def Chunk.entries (c : Chunk) (i : Nat) : List LogEntry :=
  .pulled i c.shape ::
    if c.isComplete then []
    else match c.payload? with
      | some bytes => [.yielding bytes.length]
      | none => if i = 1 ∧ c.hasHead then [] else [.metadataSkipped i]

theorem Chunk.entries_of_complete {c : Chunk} {completion : Completion}
    (hc : c.completion = some completion) (i : Nat) : c.entries i = [.pulled i c.shape] := by
  simp [entries, isComplete, hc]

theorem Chunk.entries_of_incomplete {c : Chunk} {i : Nat} (hc : c.completion = none)
    (hi : ¬ (i = 1 ∧ c.hasHead)) :
    c.entries i = .pulled i c.shape :: ((if c.payload?.isNone then [.metadataSkipped i] else []) ++
      (c.payload?.map fun bytes => .yielding bytes.length).toList) := by
  rw [entries, isComplete, hc]
  cases c.payload? <;> simp [hi]

theorem Chunk.entries_of_head {c : Chunk} (hc : c.completion = none) (hh : c.hasHead) :
    c.entries 1 = .pulled 1 c.shape ::
      (c.payload?.map fun bytes => .yielding bytes.length).toList := by
  rw [entries, isComplete, hc]
  cases c.payload? <;> simp [hh]

/-- What the log says of some chunks that are kept and of the next ones, that are not. -/
def ledger (kept others : List Chunk) : List LogEntry :=
  (kept.zipIdx 1).flatMap (fun p => p.1.entries p.2) ++
    (others.zipIdx (kept.length + 1)).map fun p => .pulled p.2 p.1.shape

theorem ledger_append (kept others more : List Chunk) :
    ledger kept (others ++ more) =
      ledger kept others ++ (more.zipIdx (kept.length + others.length + 1)).map fun p =>
        .pulled p.2 p.1.shape := by
  simp [ledger, List.zipIdx_append, Nat.add_right_comm]

theorem ledger_pull (cs : List Chunk) (c : Chunk) :
    ledger cs [c] = ledger cs [] ++ [.pulled (cs.length + 1) c.shape] := by
  simp [ledger]

theorem ledger_keep {cs : List Chunk} {c : Chunk} {entries : List LogEntry}
    (h : c.entries (cs.length + 1) = .pulled (cs.length + 1) c.shape :: entries) :
    ledger (cs ++ [c]) [] = ledger cs [c] ++ entries := by
  rw [ledger_pull]
  simp [ledger, List.zipIdx_append, Nat.add_comm 1, h]

/-! ## The entries of each kind -/

theorem Chunk.filter_pulled (c : Chunk) (i : Nat) :
    (c.entries i).filter (fun entry => entry.message = "pulled chunk") = [.pulled i c.shape] := by
  unfold entries
  split
  · simp [LogEntry.message]
  · split
    · simp [LogEntry.message]
    · split <;> simp [LogEntry.message]

theorem Chunk.filter_yielding (c : Chunk) (i : Nat) :
    (c.entries i).filter (fun entry => entry.message = "yielding payload") =
      if c.isComplete then [] else (c.payload?.map fun bytes => .yielding bytes.length).toList := by
  unfold entries
  split
  · simp [LogEntry.message]
  · cases c.payload? with
    | some bytes => simp [LogEntry.message]
    | none =>
      dsimp only
      split <;> simp [LogEntry.message]

/-- Whether the log says that a chunk is skipped, if that is kept. -/
def saidSkipped (p : Chunk × Nat) : Bool :=
  p.1.facets.2.isMetadata && !(p.2 = 1 && p.1.hasHead)

theorem Chunk.filter_skipped (c : Chunk) (i : Nat) :
    (c.entries i).filter (fun entry => entry.message = "skipping metadata-only chunk") =
      if saidSkipped (c, i) then [.metadataSkipped i] else [] := by
  have hm : c.facets.2.isMetadata = (c.payload?.isNone && !c.isComplete) := by
    rw [Body.isMetadata, facets_payload, isComplete, Option.not_isSome]
    rfl
  rw [saidSkipped, hm]
  unfold entries
  cases c.isComplete with
  | true => simp [LogEntry.message]
  | false =>
    cases c.payload? with
    | some bytes => simp [LogEntry.message]
    | none =>
      by_cases h : i = 1 ∧ c.hasHead
      · simp [LogEntry.message, h]
      · have hs : (decide (i = 1) && c.hasHead) = false := by
          rw [← Bool.not_eq_true, Bool.and_eq_true, decide_eq_true_eq]
          exact h
        simp [LogEntry.message, h, hs]

section Ledger

variable {kept others : List Chunk}

theorem ledger_pulled :
    (ledger kept others).filter (fun entry => entry.message = "pulled chunk") =
      ((kept ++ others).zipIdx 1).map fun p => .pulled p.2 p.1.shape := by
  rw [ledger, List.filter_append, List.filter_flatMap, List.filter_map, List.zipIdx_append,
    List.map_append, Nat.add_comm 1]
  congr 1
  · simp only [Chunk.filter_pulled]
    exact List.map_eq_flatMap.symm
  · congr 1
    exact List.filter_eq_self.mpr fun p _ => by simp [LogEntry.message]

/-- No other kind of entry is left by the chunks that are not kept. -/
theorem ledger_filter {message : String} (h : message ≠ "pulled chunk") :
    (ledger kept others).filter (fun entry => entry.message = message) =
      (kept.zipIdx 1).flatMap fun p =>
        (p.1.entries p.2).filter fun entry => entry.message = message := by
  rw [ledger, List.filter_append, List.filter_flatMap, List.filter_map]
  have hnone : (others.zipIdx (kept.length + 1)).filter
      ((fun entry => decide (LogEntry.message entry = message)) ∘
        fun p => LogEntry.pulled p.2 p.1.shape) = [] :=
    List.filter_eq_nil_iff.mpr fun p _ => by simp [LogEntry.message, h.symm]
  rw [hnone, List.map_nil, List.append_nil]

theorem ledger_yielding :
    (ledger kept others).filter (fun entry => entry.message = "yielding payload") =
      (contents (kept.filter fun c => !c.isComplete)).map fun bytes => .yielding bytes.length := by
  rw [ledger_filter (by decide)]
  generalize 1 = n
  induction kept generalizing n with
  | nil => rfl
  | cons c cs ih =>
    rw [List.zipIdx_cons, List.flatMap_cons, ih, Chunk.filter_yielding, List.filter_cons]
    cases c.isComplete with
    | true => rfl
    | false => cases hp : c.payload? <;> simp [hp]

theorem ledger_skipped :
    (ledger kept others).filter (fun entry => entry.message = "skipping metadata-only chunk") =
      ((kept.zipIdx 1).filter saidSkipped).map fun p => .metadataSkipped p.2 := by
  rw [ledger_filter (by decide)]
  induction kept.zipIdx 1 with
  | nil => rfl
  | cons p ps ih =>
    rw [List.flatMap_cons, ih, Chunk.filter_skipped, List.filter_cons]
    cases saidSkipped p <;> rfl

end Ledger

namespace Demux

variable {d d' d₁ : Demux} {es before : List Event} {cs : List Chunk} {e : StreamError}

/-! ## Steps -/

@[simp] theorem notes_yieldNotes (payload : Option Bytes) :
    notes (yieldNotes payload) = (payload.map fun bytes => .yielding bytes.length).toList := by
  cases payload <;> rfl

@[simp] theorem notes_skipNotes (d : Demux) (payload : Option Bytes) :
    notes (d.skipNotes payload) =
      if payload.isNone then [.metadataSkipped (d.pulled + 1)] else [] := by
  unfold skipNotes
  split <;> simp

/-- Of the chunks delivered those that are done with, as the last may be held back. -/
def doneWith (d : Demux) (chunks : List Chunk) : List Chunk :=
  match d.phase with
  | .announcing .. | .closing .. => chunks.dropLast
  | _ => chunks

def heldBack (d : Demux) (chunks : List Chunk) : List Chunk :=
  match d.phase with
  | .announcing .. | .closing .. => chunks.getLast?.toList
  | _ => []

theorem doneWith_of_pulling (h : d.Pulling) (cs : List Chunk) : d.doneWith cs = cs := by
  rcases h with h | h <;> rw [doneWith, h]

theorem heldBack_of_pulling (h : d.Pulling) (cs : List Chunk) : d.heldBack cs = [] := by
  rcases h with h | h <;> rw [heldBack, h]

theorem Passes.not_first_head {c : Chunk} (h : d.Passes c) (hd : d.Consistent) :
    ¬ (d.pulled + 1 = 1 ∧ c.hasHead) := by
  rintro ⟨hn, hc⟩
  rcases h with h | ⟨h, -⟩
  · simp [Chunk.hasHead, h] at hc
  · simp only [Consistent, h] at hd
    omega

/-- **A step that gives no error keeps the books**: what it logs is what the ledger grows by. -/
theorem ledger_transition {s : Step} (h : Transition d s)
    (hv : ∀ e, s.value ≠ some (.item (.error e))) (hd : d.Consistent)
    (hn : d.pulled = (delivered es).length) (hh : d.Holding es) :
    ledger (s.demux.doneWith (delivered es ++ delivered s.trace))
        (s.demux.heldBack (delivered es ++ delivered s.trace)) =
      ledger (d.doneWith (delivered es)) (d.heldBack (delivered es)) ++ notes s.trace := by
  rw [← delivered_acts s.trace]
  cases h with
  | idle h => simp [Step.trace, doneWith, heldBack, h]
  | stall h => simp [Step.trace, doneWith, heldBack]
  | fail h => exact absurd rfl (hv _)
  | exhaust h =>
    rw [doneWith_of_pulling h, heldBack_of_pulling h]
    by_cases hp : d.pulled = 0 <;> simp [Step.trace, doneWith, heldBack, finish, hp]
  | truncate h => exact absurd rfl (hv _)
  | reject h => exact absurd rfl (hv _)
  | @announce _ c _ _ h =>
    rw [doneWith_of_pulling (.inl h), heldBack_of_pulling (.inl h)]
    simp [Step.trace, doneWith, heldBack, ledger_pull, hn]
  | @close _ c _ _ h =>
    rw [doneWith_of_pulling h, heldBack_of_pulling h]
    simp [Step.trace, doneWith, heldBack, ledger_pull, hn]
  | @deliver _ c h hs hp hc =>
    have he := Chunk.entries_of_incomplete hc (hp.not_first_head hd)
    rw [hn] at he
    rw [doneWith_of_pulling h, heldBack_of_pulling h, Step.trace_giving]
    simp [doneWith, heldBack, ledger_keep he, ledger_pull, hn]
  | headStall h => simp [Step.trace, doneWith, heldBack, h]
  | headFail h => exact absurd rfl (hv _)
  | headDeliver h hc hb =>
    simp only [Consistent, h] at hd
    simp only [Holding, h] at hh
    obtain ⟨c, head, hl, rfl, hhead, -⟩ := hh
    obtain ⟨ds, hds⟩ := List.getLast?_eq_some_iff.mp hl
    -- The chunk held back for the head callback is the first.
    obtain rfl : ds = [] := by
      rw [hd.2.2, hds, List.length_append, List.length_singleton] at hn
      exact List.length_eq_zero_iff.mp (by omega)
    have he := Chunk.entries_of_head hb (show c.hasHead by simp [Chunk.hasHead, hhead])
    have hkeep : ledger ([] ++ [c]) [] = ledger [] [c] ++ _ := ledger_keep he
    rw [Step.trace_giving, hds]
    simpa [doneWith, heldBack, h, Chunk.facets_payload] using hkeep
  | headClose h => simp [Step.trace, doneWith, heldBack, h]
  | trailersStall h => simp [Step.trace, doneWith, heldBack, h]
  | trailersFail h => exact absurd rfl (hv _)
  | @trailersDone _ _ payload h =>
    simp only [Holding, h] at hh
    obtain ⟨c, trailers, hl, -, hc, -⟩ := hh
    obtain ⟨ds, hds⟩ := List.getLast?_eq_some_iff.mp hl
    rw [hds]
    cases payload <;>
      simp [Step.trace, doneWith, heldBack, h, finish,
        ledger_keep (Chunk.entries_of_complete hc (ds.length + 1))]

/-! ## Runs -/

/-- **Before an error the log is the ledger** of the chunks that are done with and of the one that
is held back. -/
theorem ledger_run (h : Run d es d') (hd : d.Consistent) (hp : d.phase = .opening)
    (he : ∀ e, .error e ∉ items es) :
    notes es = ledger (d'.doneWith (delivered es)) (d'.heldBack (delivered es)) := by
  induction h with
  | refl => simp [doneWith, heldBack, hp, ledger]
  | @step d₁ _ prior ih =>
    simp only [Reading.of_append, List.mem_append, not_or] at he
    obtain ⟨hn, hh, -⟩ := balance_run prior hd hp
    have ht := step_transition (prior.consistent hd)
    have hv : ∀ e, d₁.step.value ≠ some (.item (.error e)) :=
      fun e hv => (he e).2 (by simp [Step.trace, hv])
    rw [Reading.of_append, Reading.of_append, ih fun e => (he e).1,
      ledger_transition ht hv (prior.consistent hd) hn (holding_acts.mp hh)]
  | configure _ policy ih => exact ih he

theorem notes_of_error {s : Step} (h : Transition d s) (hv : s.value = some (.item (.error e))) :
    notes s.trace =
      ((delivered s.trace).zipIdx (d.pulled + 1)).map fun p => .pulled p.2 p.1.shape := by
  rw [← delivered_acts s.trace]
  cases h with
  | deliver | headDeliver => simp at hv
  | @trailersDone _ _ payload => cases payload <;> simp at hv
  | fail | truncate | reject | headFail | trailersFail => simp [Step.trace]
  | _ => cases hv

/-- The chunks that an error did not stop are those that the step which found it was done with. -/
theorem FailedAt.passed_eq {rest : List Event} {f : Fault}
    (h : FailedAt d d₁ es before rest f e) :
    f.passed (delivered es) = d₁.doneWith (delivered before) := by
  have hw := h.awaits_eq
  rw [h.delivered_eq]
  cases hp : d₁.phase with
  | opening | streaming =>
    cases f <;> simp_all [awaits, Fault.passed, doneWith]
  | announcing | closing =>
    cases f <;> simp_all [awaits, Fault.passed, doneWith]
  | finished => exact absurd hp h.live

theorem doneWith_append_heldBack (d : Demux) (cs : List Chunk) :
    d.doneWith cs ++ d.heldBack cs = cs := by
  have hlast : cs.dropLast ++ cs.getLast?.toList = cs := by
    cases hl : cs.getLast? with
    | none =>
      obtain rfl := List.getLast?_eq_none_iff.mp hl
      rfl
    | some c =>
      obtain ⟨ds, rfl⟩ := List.getLast?_eq_some_iff.mp hl
      simp
  unfold doneWith heldBack
  split
  · exact hlast
  · exact hlast
  · exact List.append_nil cs

/-- The chunks that no error stopped. -/
inductive Kept (events : List Event) : List Chunk → Prop
  | all (h : ∀ e, .error e ∉ items events) : Kept events (delivered events)
  | passed {f : Fault} {e : StreamError} (h : f.Struck events e) :
      Kept events (f.passed (delivered events))

/-- **The books of a whole run**: its items and its log, in terms of the chunks that were kept. -/
theorem Run.exists_kept (h : Run d es d') (hd : d.Consistent) (hp : d.phase = .opening)
    (ha : d.Agrees []) (hf : d'.phase = .finished) :
    ∃ kept others, Kept es kept ∧ delivered es = kept ++ others ∧
      notes es = ledger kept others ∧ payloads (items es) = contents kept := by
  by_cases he : ∃ e, .error e ∈ items es
  · obtain ⟨e, he⟩ := he
    obtain ⟨d₁, before, rest, hrun, hv, rfl, hrest, -, -⟩ := h.error_step hd he
    obtain ⟨f, hfail, -⟩ := hrun.failedAt hd ha hv hrest
    obtain ⟨-, -, hbefore⟩ := (standing_run hrun hd (standing_of_opening hp)).unfailed hfail.live
    obtain ⟨hn, -, -⟩ := balance_run hrun hd hp
    have hnotes := ledger_run hrun hd hp (by simpa only [items_acts] using hbefore)
    have hstep := notes_of_error (step_transition (hrun.consistent hd)) hv
    have hsplit := d₁.doneWith_append_heldBack (delivered before)
    have hrestNotes : notes rest = [] := of_finished rfl hrest
    have hrestDelivered : delivered rest = [] := of_finished rfl hrest
    refine ⟨_, d₁.heldBack (delivered before) ++ delivered d₁.step.trace, .passed hfail.struck,
      ?_, ?_, hfail.payloads_eq hd hp⟩
    · rw [hfail.passed_eq, Reading.of_append, Reading.of_append, hrestDelivered, List.append_nil,
        ← List.append_assoc, hsplit]
    · have hlength := congrArg List.length hsplit
      rw [List.length_append, ← hn] at hlength
      rw [hfail.passed_eq, Reading.of_append, Reading.of_append, hnotes, hstep, hrestNotes,
        List.append_nil, ledger_append, hlength]
  · have he : ∀ e, .error e ∉ items es := not_exists.mp he
    obtain ⟨-, -, hb⟩ := balance_run h hd hp
    refine ⟨delivered es, [], .all he, (List.append_nil _).symm, ?_, ?_⟩
    · have := ledger_run h hd hp he
      simpa only [doneWith, heldBack, hf] using this
    · simpa [held, hf] using hb he

/-! ## Drains -/

/-- What the log says of a response of which some chunks were kept. -/
structure Accounted (events : List Event) (given : List Item) (kept : List Chunk) : Prop where
  /-- The items are the payloads of the chunks that were kept. -/
  given_eq : payloads given = contents kept
  pulled_eq : logged "pulled chunk" events =
    ((delivered events).zipIdx 1).map fun p => .pulled p.2 p.1.shape
  /-- A payload is logged unless its chunk is complete. -/
  yielding_eq : logged "yielding payload" events =
    (contents (kept.filter fun c => !c.isComplete)).map fun bytes => .yielding bytes.length
  /-- A chunk with metadata only is logged unless it is the first and has a head. -/
  skipped_eq : logged "skipping metadata-only chunk" events =
    ((kept.zipIdx 1).filter saidSkipped).map fun p => .metadataSkipped p.2
  /-- So every item is logged if no complete chunk has a payload. -/
  yielding_all : logged "yielding payload" events =
      (payloads given).map (fun bytes => .yielding bytes.length) ↔
    ∀ c ∈ kept, c.isComplete → c.payload? = none
  /-- And every chunk with metadata only is logged if the first is no such chunk or has no head. -/
  skipped_all : logged "skipping metadata-only chunk" events =
      ((kept.zipIdx 1).filter (fun p => p.1.facets.2.isMetadata)).map
        (fun p => .metadataSkipped p.2) ↔
    ∀ c, kept.head? = some c → c.facets.2.isMetadata → ¬ c.hasHead

theorem map_filter_eq_map_iff {α β : Type} (f : α → β) (p : α → Bool) (l : List α) :
    (l.filter p).map f = l.map f ↔ ∀ a ∈ l, p a := by
  constructor
  · intro h
    apply List.length_filter_eq_length_iff.mp
    simpa only [List.length_map] using congrArg List.length h
  · intro h
    rw [List.filter_eq_self.mpr h]

theorem contents_filter_eq_iff {β : Type} (f : Bytes → β) (cs : List Chunk) :
    (contents (cs.filter fun c => !c.isComplete)).map f = (contents cs).map f ↔
      ∀ c ∈ cs, c.isComplete → c.payload? = none := by
  induction cs with
  | nil => simp
  | cons c cs ih =>
    rw [List.filter_cons, List.forall_mem_cons]
    cases hc : c.isComplete with
    | false => simp [ih]
    | true =>
      cases hp : c.payload? with
      | none => simpa [hp] using ih
      | some bytes =>
        -- The payload is missing on the left, where there can be no more than on the right.
        have hle : (contents (cs.filter fun c => !c.isComplete)).length ≤ (contents cs).length :=
          (List.filter_sublist.filterMap Chunk.payload?).length_le
        constructor
        · intro h
          have := congrArg List.length h
          simp [hp] at this
          omega
        · rintro ⟨h, -⟩
          cases h rfl

theorem skipped_eq_iff (cs : List Chunk) :
    ((cs.zipIdx 1).filter saidSkipped).map (fun p => LogEntry.metadataSkipped p.2) =
        ((cs.zipIdx 1).filter (fun p => p.1.facets.2.isMetadata)).map
          (fun p => LogEntry.metadataSkipped p.2) ↔
      ∀ c, cs.head? = some c → c.facets.2.isMetadata → ¬ c.hasHead := by
  have hsaid : saidSkipped = fun p : Chunk × Nat =>
      (!(p.2 = 1 && p.1.hasHead)) && p.1.facets.2.isMetadata := by
    funext p
    exact Bool.and_comm _ _
  rw [hsaid, ← List.filter_filter, map_filter_eq_map_iff]
  cases cs with
  | nil => simp
  | cons c cs =>
    -- The later chunks have greater numbers.
    have hrest : ∀ p ∈ (cs.zipIdx (1 + 1)).filter (fun p => p.1.facets.2.isMetadata),
        (!(p.2 = 1 && p.1.hasHead)) = true := by
      intro p hp
      have hle : 1 + 1 ≤ p.2 := List.le_snd_of_mem_zipIdx (List.mem_filter.mp hp).1
      have hne : ¬ p.2 = 1 := by omega
      simp [hne]
    rw [List.zipIdx_cons, List.filter_cons]
    cases hm : c.facets.2.isMetadata with
    | true =>
      rw [if_pos rfl, List.forall_mem_cons, and_iff_left hrest]
      simp [hm]
    | false =>
      rw [if_neg Bool.false_ne_true]
      refine iff_of_true hrest ?_
      rintro _ ⟨⟩ h
      exact absurd (hm.symm.trans h) Bool.false_ne_true

/-- **The log of a response read to its end.** -/
theorem log_of_drain (source : Transport) (onHead onTrailers : Callback) (policy : Policy) :
    let o := (new source onHead onTrailers policy).drain
    ∃ kept, Kept o.events kept ∧ Accounted o.events o.value kept := by
  intro o
  have hd : (new source onHead onTrailers policy).Consistent := consistent_new _ _ _ _
  have hrun := (steps_drain (new source onHead onTrailers policy)).run
  obtain ⟨kept, others, hkept, hsplit, hnotes, hgiven⟩ :=
    hrun.exists_kept hd rfl (agrees_new _ _ _ _) (finished_of_drain hd)
  rw [items_drain hd] at hgiven
  have hlogged : ∀ message ∈ noteMessages, logged message o.events =
      (ledger kept others).filter fun entry => entry.message = message := by
    intro message h
    rw [logged_eq_filter_notes h, hnotes]
  have hpulled := hlogged "pulled chunk" (by simp [noteMessages])
  have hyielding := hlogged "yielding payload" (by simp [noteMessages])
  have hskipped := hlogged "skipping metadata-only chunk" (by simp [noteMessages])
  rw [ledger_pulled, ← hsplit] at hpulled
  rw [ledger_yielding] at hyielding
  rw [ledger_skipped] at hskipped
  exact ⟨kept, hkept,
    { given_eq := hgiven
      pulled_eq := hpulled
      yielding_eq := hyielding
      skipped_eq := hskipped
      yielding_all := by rw [hyielding, hgiven, contents_filter_eq_iff]
      skipped_all := by rw [hskipped, skipped_eq_iff] }⟩

/-- The log is silent on a first chunk that is only a head, and on the payload of a complete
chunk. -/
theorem log_of_drain_silent :
    let first := Chunk.ofHead ⟨200, .empty⟩
    let last := (Chunk.ofPayload [104, 105]).complete none
    let o := (new [.chunk first, .chunk last] .immediate .immediate .default).drain
    o.value = [.payload [104, 105]] ∧ delivered o.events = [first, last] ∧
      first.facets.2.isMetadata ∧ logged "yielding payload" o.events = [] ∧
      logged "skipping metadata-only chunk" o.events = [] := by
  decide +kernel

end Demux

end ResponseFraming
