import ResponseFraming.Proofs.Draining
import ResponseFraming.Proofs.Lossy
import ResponseFraming.Proofs.ReportText

/-!
# The counts in the text of a replay

The line below the headers says how many bytes, payloads and chunks there were.
Payloads and chunks are counted as they come, but the bytes are counted in the body that
the report shows, which is a lossy reading of the payloads.  So the first number is
right if the payloads together are UTF-8, wherever they were cut, and in general
it is too large by what the ill-formed parts are short of three bytes.

* `Report.counts_iff`: the line has the length of the body that is shown.
* `received_gather`: the payloads that a replay receives.
* `counts_replay`: the numbers, and when the first is that of the bytes received.
-/

namespace ResponseFraming

namespace Report

/-- The numbers in the line below the headers. -/
def Counts (r : Report) (bytes payloads chunks : Nat) : Prop :=
  ∃ rest, r.text = policyLine r.policy ++ (headLine r.status ++ (fieldLines r.headers ++
    (countLine bytes payloads chunks ++ rest)))

theorem counts_iff {r : Report} {n p c : Nat} :
    r.Counts n p c ↔ n = r.body.utf8ByteSize ∧ p = r.payloads ∧ c = r.chunksSeen := by
  have htext : r.text = policyLine r.policy ++ (headLine r.status ++ (fieldLines r.headers ++
      (countLine r.body.utf8ByteSize r.payloads r.chunksSeen ++
        (bodyText r.body ++ (r.trailerLines ++ errorLine r.error))))) := by
    rw [text, bodyLines_eq]
    simp only [String.append_assoc]
  constructor
  · rintro ⟨rest, h⟩
    simp only [htext, String.append_right_inj] at h
    exact (countLine_append_inj h.symm).1
  · rintro ⟨rfl, rfl, rfl⟩
    exact ⟨_, htext⟩

end Report

theorem payloads_gathered (bs : List Bytes) (e : Option StreamError) :
    payloads (bs.map .payload ++ (e.map .error).toList) = bs := by
  cases e <;> simp

/-- What a consumer receives in a replay, as the demultiplexer's events have it. -/
theorem received_gather (chunks : List Chunk) (policy : Policy) :
    let body := (Demux.new (chunks.map .chunk) .immediate .immediate policy).gather
    payloads (items body.events) = body.value.1 ∧
      (delivered body.events).length = body.demux.pulled := by
  intro body
  have hd := Demux.consistent_new (chunks.map .chunk) .immediate .immediate policy
  constructor
  · exact (congrArg payloads (Demux.items_gather hd)).trans (payloads_gathered _ _)
  · rw [Demux.pulled_steps (Demux.steps_gather _) hd]
    exact (Nat.zero_add _).symm

/-- A replay reports what a consumer receives. -/
theorem replay_of_events (chunks : List Chunk) (policy : Policy) :
    let events := (Demux.new (chunks.map .chunk) .immediate .immediate policy).gather.events
    (replay chunks policy).body = Utf8.decodeLossy (payloads (items events)).flatten ∧
      (replay chunks policy).payloads = (payloads (items events)).length ∧
      (replay chunks policy).chunksSeen = (delivered events).length := by
  dsimp only
  obtain ⟨hreceived, hdelivered⟩ := received_gather chunks policy
  rw [hreceived, hdelivered]
  exact ⟨rfl, rfl, rfl⟩

/-- **The counts of a replay.**  The payloads received fall into characters and ill-formed parts,
and the number of bytes is that of their lossy reading.  It is that of the bytes received if every
ill-formed part has three. -/
theorem counts_replay (chunks : List Chunk) (policy : Policy) :
    let events := (Demux.new (chunks.map .chunk) .immediate .immediate policy).gather.events
    let received := payloads (items events)
    let parts := Utf8.parts received.flatten
    (parts.flatMap (·.bytes) = received.flatten ∧ ∀ part ∈ parts, part.Sound) ∧
      (∀ n p c, (replay chunks policy).Counts n p c ↔
        n = (parts.map (·.shown)).sum ∧ p = received.length ∧ c = (delivered events).length) ∧
      ((replay chunks policy).Counts received.flatten.length received.length
          (delivered events).length ↔
        ∀ part ∈ parts, part.char = none → part.bytes.length = 3) := by
  intro events received parts
  have hcounts : ∀ n p c, (replay chunks policy).Counts n p c ↔
      n = (parts.map (·.shown)).sum ∧ p = received.length ∧ c = (delivered events).length := by
    intro n p c
    obtain ⟨hbody, hpayloads, hchunks⟩ := replay_of_events chunks policy
    rw [Report.counts_iff, hbody, hpayloads, hchunks, Utf8.utf8ByteSize_decodeLossy]
  refine ⟨⟨Utf8.flatMap_bytes_parts _, Utf8.sound_of_mem_parts⟩, hcounts, ?_⟩
  rw [hcounts, Utf8.length_eq_sum_parts, ← Utf8.Part.sum_shown_eq_iff Utf8.sound_of_mem_parts]
  constructor
  · rintro ⟨h, -⟩
    exact h.symm
  · intro h
    exact ⟨h.symm, rfl, rfl⟩

/-- One byte that is no character is counted as the three bytes of U+FFFD. -/
theorem counts_replay_invalid :
    let chunks := [(Chunk.ofPayload [0xFF]).complete none]
    let events := (Demux.new (chunks.map .chunk) .immediate .immediate .default).gather.events
    payloads (items events) = [[0xFF]] ∧ (delivered events).length = 1 ∧
      (replay chunks .default).Counts 3 1 1 ∧ ¬ (replay chunks .default).Counts 1 1 1 := by
  intro chunks events
  obtain ⟨hreceived, hdelivered⟩ := received_gather chunks .default
  obtain ⟨hpulled, hvalue, -⟩ := digest_gather chunks .default
  refine ⟨?_, ?_, ?_, ?_⟩
  · rw [hreceived, hvalue]
    rfl
  · rw [hdelivered, hpulled]
    rfl
  · rw [Report.counts_iff, replay_eq]
    decide
  · rw [Report.counts_iff, replay_eq]
    decide

end ResponseFraming
