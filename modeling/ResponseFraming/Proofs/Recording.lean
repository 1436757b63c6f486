import ResponseFraming.Proofs.Decoding
import ResponseFraming.Proofs.Replay

/-!
# A replayed recording gives its data back

A recording goes through three forms: its records are made into chunks, the chunks
into payloads and metadata, and these into the pairs and the text of a report.  In the
report stands again what the records said.

* `Record.Describes`, `Record.describes_of_chunk`: what a chunk has from its record.
* `flatten_payloads`: the payloads of some first chunks are the encoded text of their records.
* `accepted_replay`: how many records those are can be told from the report.
* `recording_reproduced`: the report in terms of the records.
-/

namespace ResponseFraming

/-! ## Records and their chunks -/

namespace Record

def text (r : Record) : String := r.payload.getD ""

/-- A chunk is what a record says. -/
structure Describes (r : Record) (c : Chunk) : Prop where
  head : c.head = r.status.map fun status => ⟨status, Fields.ofPairs r.headers⟩
  /-- Without a status there are no headers either. -/
  headless : r.status = none → r.headers = []
  data : c.data = r.payload.map Utf8.encode
  completion : c.completion =
    if r.complete then some ⟨r.trailers.map fun ps => ⟨Fields.ofPairs ps⟩⟩ else none

theorem head_eq_ok {r : Record} {h : Option Head} (hr : r.head = .ok h) :
    h = (r.status.map fun status => ⟨status, Fields.ofPairs r.headers⟩) ∧
      (r.status = none → r.headers = []) := by
  cases hs : r.status with
  | some status =>
    rw [head, hs] at hr
    cases hr
    exact ⟨rfl, nofun⟩
  | none =>
    rw [head, hs] at hr
    cases hh : r.headers with
    | nil =>
      rw [hh] at hr
      cases hr
      exact ⟨rfl, fun _ => rfl⟩
    | cons p ps =>
      rw [hh] at hr
      cases hr

theorem completion_eq_ok {r : Record} {c : Option Completion} (hr : r.completion = .ok c) :
    c = if r.complete then some ⟨r.trailers.map fun ps => ⟨Fields.ofPairs ps⟩⟩ else none := by
  rw [completion] at hr
  cases hc : r.complete with
  | true =>
    rw [hc, if_pos rfl] at hr
    cases hr
    rfl
  | false =>
    rw [hc, if_neg Bool.false_ne_true] at hr
    split at hr
    · cases hr
    · cases hr
      rfl

theorem describes_of_chunk {r : Record} {c : Chunk} (h : r.chunk = .ok c) : r.Describes c := by
  obtain ⟨head, hh, h⟩ := bind_eq_ok.mp h
  obtain ⟨completion, hc, h⟩ := bind_eq_ok.mp h
  obtain ⟨hhead, hheadless⟩ := head_eq_ok hh
  cases h
  exact ⟨hhead, hheadless, rfl, completion_eq_ok hc⟩

end Record

theorem Recording.map_chunk_of_chunksFrom {rs : Recording} {cs : List Chunk} {n : Nat}
    (h : rs.chunksFrom n = .ok cs) : rs.map Record.chunk = cs.map .ok := by
  induction rs generalizing n cs with
  | nil =>
    cases h
    rfl
  | cons r rs ih =>
    obtain ⟨c, hc, h⟩ := bind_eq_ok.mp h
    obtain ⟨rest, hrest, h⟩ := bind_eq_ok.mp h
    have hr : r.chunk = .ok c := by
      cases hr : r.chunk with
      | error fault => rw [hr] at hc; cases hc
      | ok c' => rw [hr] at hc; cases hc; rfl
    cases h
    rw [List.map_cons, List.map_cons, hr, ih hrest]

/-- The bytes of a payload are those of the data; there are none if it is empty. -/
theorem Chunk.flatten_payload? (c : Chunk) : c.payload?.toList.flatten = c.data.getD [] := by
  obtain ⟨head, data, completion⟩ := c
  rcases data with _ | _ | ⟨b, rest⟩
  · rfl
  · rfl
  · exact List.append_nil _

section Chunks

variable {rs : Recording} {cs : List Chunk} (h : rs.map Record.chunk = cs.map .ok)

include h

theorem length_of_map_chunk : rs.length = cs.length := by
  have hl := congrArg List.length h
  rwa [List.length_map, List.length_map] at hl

theorem describes_getElem? {i : Nat} {c : Chunk} (hc : cs[i]? = some c) :
    ∃ r, rs[i]? = some r ∧ r.Describes c := by
  have hi := congrArg (·[i]?) h
  simp only [List.getElem?_map, hc, Option.map_some] at hi
  obtain ⟨r, hr, hrc⟩ := Option.map_eq_some_iff.mp hi
  exact ⟨r, hr, Record.describes_of_chunk hrc⟩

/-- **The payloads of the first chunks are the encoded text of their records.**  A payload that is
empty is left out of the payloads, and adds nothing to the text. -/
theorem flatten_payloads (m : Nat) :
    ((cs.take m).filterMap Chunk.payload?).flatten =
      Utf8.encode (String.join ((rs.take m).map Record.text)) := by
  induction rs generalizing cs m with
  | nil =>
    rw [List.map_nil, List.nil_eq, List.map_eq_nil_iff] at h
    rw [h, List.take_nil, List.take_nil]
    rfl
  | cons r rs ih =>
    cases cs with
    | nil => cases h
    | cons c cs =>
      cases m with
      | zero => rfl
      | succ m =>
        rw [List.map_cons, List.map_cons, List.cons.injEq] at h
        have hd := (Record.describes_of_chunk h.1).data
        have hp : c.payload?.toList.flatten = Utf8.encode r.text := by
          rw [Chunk.flatten_payload?, hd, Record.text]
          cases r.payload <;> rfl
        rw [List.take_succ_cons, List.take_succ_cons, List.map_cons, String.join_cons,
          Utf8.encode_append, ← ih h.2, ← hp, List.filterMap_cons]
        cases c.payload? with
        | none => rfl
        | some bytes => simp

end Chunks

/-! ## The report of a replay -/

theorem receivers_gather (chunks : List Chunk) (policy : Policy) :
    let source := chunks.map Signal.chunk
    let body := (Demux.new source .immediate .immediate policy).gather
    let parts := (Parts.new source policy).deliverAll body.events
    Receiver.value? parts.head = Ending.head? chunks ∧
      Receiver.value? parts.trailers = (Ending.of policy chunks).trailers? chunks := by
  intro source body parts
  obtain ⟨-, -, hc⟩ := digest_gather chunks policy
  have hp : parts = (Parts.new source policy).deliverAll (calls body.events) :=
    (Parts.deliverAll_calls _ _).symm
  rw [hp, hc]
  exact Parts.value?_deliverAll _ _ _ _

namespace Ending

theorem first_eq_complete {r k : Option Nat} {i : Nat} (h : first r k = complete i) :
    k = some i := by
  rcases r with _ | r <;> rcases k with _ | k <;> simp only [first] at h
  · cases h
  · cases h
    rfl
  · cases h
  · split at h <;> cases h
    rfl

theorem getElem?_of_complete {policy : Policy} {chunks : List Chunk} {i : Nat}
    (h : of policy chunks = complete i) :
    ∃ c completion, chunks[i]? = some c ∧ c.completion = some completion := by
  obtain ⟨hi, hc, -⟩ := List.findIdx?_eq_some_iff_getElem.mp (first_eq_complete h)
  obtain ⟨completion, hc⟩ := Option.isSome_iff_exists.mp hc
  exact ⟨chunks[i], completion, List.getElem?_eq_getElem hi, hc⟩

end Ending

namespace Violation

theorem message_truncated (n : Nat) :
    (truncated n).message =
      "response stream ended after " ++ toString n ++ " chunk(s) without a terminal chunk" := rfl

theorem message_lateHead (n : Nat) :
    (lateHead n).message =
      "response head received on chunk " ++ toString n ++
        "; a head is only valid on the first chunk" := rfl

/-- The tenth character tells the two messages apart. -/
theorem message_truncated_ne (m n : Nat) : (truncated m).message ≠ (lateHead n).message := by
  intro h
  have ht := congrArg (·.toList[9]?) h
  simp only [message_truncated, message_lateHead, String.toList_append, List.append_assoc] at ht
  rw [List.getElem?_append_left (by decide), List.getElem?_append_left (by decide)] at ht
  exact absurd ht (by decide)

end Violation

/-- The number of records whose content was accepted, as a report shows it: a late head that was
rejected is counted among the chunks, and its record is not accepted. -/
def Report.accepted (r : Report) : Nat :=
  if r.error = some (Violation.lateHead r.chunksSeen).message then r.chunksSeen - 1
  else r.chunksSeen

theorem error_replay (chunks : List Chunk) (policy : Policy) :
    (replay chunks policy).error =
      ((Ending.of policy chunks).violation policy 0 chunks.length).map (·.message) := by
  rw [replay_eq, error_account]

theorem chunksSeen_replay (chunks : List Chunk) (policy : Policy) :
    (replay chunks policy).chunksSeen = (Ending.of policy chunks).pulled chunks.length := by
  rw [replay_eq]
  rfl

theorem body_replay (chunks : List Chunk) (policy : Policy) :
    (replay chunks policy).body =
      Utf8.decodeLossy ((Ending.of policy chunks).payloads chunks).flatten := by
  rw [replay_eq]
  rfl

theorem accepted_replay (chunks : List Chunk) (policy : Policy) :
    (replay chunks policy).accepted = (Ending.of policy chunks).accepted chunks.length := by
  rw [Report.accepted, chunksSeen_replay, error_replay]
  cases Ending.of policy chunks with
  | rejected i =>
    have he : 0 + i + 1 = i + 1 := by omega
    rw [Ending.violation, he]
    exact if_pos rfl
  | complete i => exact if_neg (Option.some_ne_none _).symm
  | exhausted =>
    rw [Ending.violation]
    split
    · exact if_neg fun h => Violation.message_truncated_ne _ _ (Option.some.inj h)
    · exact if_neg (Option.some_ne_none _).symm

/-- The status and the headers of a response are those of its first record. -/
theorem head_describes {rs : Recording} {cs : List Chunk} (h : rs.map Record.chunk = cs.map .ok) :
    (Ending.head? cs).map (·.status) = rs.head?.bind (·.status) ∧
      ((Ending.head? cs).map (·.fields.toPairs)).getD [] = (rs.head?.map (·.headers)).getD [] := by
  cases cs with
  | nil =>
    obtain rfl : rs = [] := List.length_eq_zero_iff.mp (length_of_map_chunk h)
    exact ⟨rfl, rfl⟩
  | cons c cs =>
    obtain ⟨r, hr, hd⟩ := describes_getElem? h (i := 0) rfl
    rw [← List.head?_eq_getElem?] at hr
    have hc : Ending.head? (c :: cs) =
        r.status.map fun status => ⟨status, Fields.ofPairs r.headers⟩ := hd.head
    rw [hr, hc]
    cases hs : r.status with
    | none => exact ⟨hs.symm, (hd.headless hs).symm⟩
    | some status => exact ⟨hs.symm, Fields.toPairs_ofPairs r.headers⟩

theorem Record.Describes.trailers {r : Record} {c : Chunk} {completion : Completion}
    (h : r.Describes c) (hc : c.completion = some completion) :
    c.trailers?.map (·.fields.toPairs) = r.trailers := by
  have hd := h.completion
  rw [hc] at hd
  split at hd
  · obtain rfl := Option.some.inj hd
    rw [Chunk.trailers?, hc]
    cases ht : r.trailers with
    | none => rfl
    | some ps => exact congrArg some (Fields.toPairs_ofPairs ps)
  · cases hd

/-- **A replayed recording gives its data back.**  The body is the text of the records that were
accepted, status and headers are those of the first record, and the trailers of a complete response
are those of the record at which it ended. -/
theorem recording_reproduced (rs : Recording) (cs : List Chunk) (policy : Policy)
    (h : rs.chunks = .ok cs) :
    let report := replay cs policy
    report.body = String.join ((rs.take report.accepted).map Record.text) ∧
      report.status = rs.head?.bind (·.status) ∧
      report.headers = (rs.head?.map (·.headers)).getD [] ∧
      (report.status = none → report.headers = []) ∧
      (report.completed → ∃ n r, report.chunksSeen = n + 1 ∧ rs[n]? = some r ∧
        report.trailers = r.trailers) := by
  intro report
  have hm := Recording.map_chunk_of_chunksFrom h
  obtain ⟨hhead, htrailers⟩ := receivers_gather cs policy
  obtain ⟨hs, hh⟩ := head_describes hm
  have hstatus : report.status = (Ending.head? cs).map (·.status) := by
    rw [← hhead]
    rfl
  have hheaders : report.headers = ((Ending.head? cs).map (·.fields.toPairs)).getD [] := by
    rw [← hhead]
    rfl
  have hreport : report.completed = ((Ending.of policy cs).trailers? cs).isSome ∧
      report.trailers =
        ((Ending.of policy cs).trailers? cs).bind fun t => t.map (·.fields.toPairs) := by
    rw [← htrailers]
    exact ⟨rfl, rfl⟩
  refine ⟨?_, hstatus.trans hs, hheaders.trans hh, ?_, ?_⟩
  · rw [body_replay, Ending.payloads, flatten_payloads hm, Utf8.decodeLossy_encode,
      accepted_replay]
  · intro hn
    rw [hstatus, Option.map_eq_none_iff] at hn
    rw [hheaders, hn]
    rfl
  · intro hc
    rw [hreport.1] at hc
    cases he : Ending.of policy cs with
    | rejected i => rw [he] at hc; cases hc
    | exhausted => rw [he] at hc; cases hc
    | complete i =>
      obtain ⟨c, completion, hi, hcomp⟩ := Ending.getElem?_of_complete he
      obtain ⟨r, hr, hd⟩ := describes_getElem? hm hi
      refine ⟨i, r, ?_, hr, ?_⟩
      · rw [chunksSeen_replay, he]
        rfl
      · rw [hreport.2, he, Ending.trailers?, hi, Option.bind_some, Option.bind_some,
          hd.trailers hcomp]

/-- Two characters outside ASCII, an empty payload and a repeated name of a header.  A late head in
the third record is rejected by the strict policy, so its text is missing, and ignored by the
default one, which sees the response completed by a list of trailers that is empty. -/
theorem recording_reproduced_rejected :
    let first : Record := ⟨some 200, [("A", "1"), ("a", "2")], some "é€", false, none⟩
    let second : Record := ⟨none, [], some "", false, none⟩
    let third : Record := ⟨some 204, [], some "x", true, some []⟩
    ∃ cs, Recording.chunks [first, second, third] = .ok cs ∧
      (replay cs .strict).accepted = 2 ∧ (replay cs .strict).body = "é€" ∧
      (replay cs .strict).headers = [("A", "1"), ("a", "2")] ∧
      (replay cs .default).body = "é€x" ∧ (replay cs .default).completed ∧
      (replay cs .default).trailers = some [] := by
  intro first second third
  let cs : List Chunk :=
    [⟨some ⟨200, ⟨[⟨"A", "1"⟩, ⟨"a", "2"⟩]⟩⟩, some (Utf8.encode "é€"), none⟩,
      ⟨none, some (Utf8.encode ""), none⟩,
      ⟨some ⟨204, ⟨[]⟩⟩, some (Utf8.encode "x"), some ⟨some ⟨⟨[]⟩⟩⟩⟩]
  have h : Recording.chunks [first, second, third] = .ok cs := rfl
  obtain ⟨hb, -, hh, -, -⟩ := recording_reproduced [first, second, third] cs .strict h
  obtain ⟨hb', -, -, -, ht⟩ := recording_reproduced [first, second, third] cs .default h
  have ha : (replay cs .strict).accepted = 2 := accepted_replay cs .strict
  have ha' : (replay cs .default).accepted = 3 := accepted_replay cs .default
  have hs : (replay cs .default).chunksSeen = 3 := chunksSeen_replay cs .default
  have hc : (replay cs .default).completed := by
    have hv := (receivers_gather cs .default).2
    exact congrArg Option.isSome hv
  rw [ha] at hb
  rw [ha'] at hb'
  obtain ⟨n, r, hn, hr, htr⟩ := ht hc
  obtain rfl : n = 2 := by omega
  obtain rfl : third = r := Option.some.inj hr
  exact ⟨cs, h, ha, hb, hh, hb', hc, htr⟩

end ResponseFraming
