import ResponseFraming.Proofs.Recording
import Mathlib.Data.List.Forall2

/-!
# Which recordings are responses

A record can ask for what no chunk has: headers without a status, or trailers without a
completion.  A recording is made into chunks exactly if none of its records does
(`Record.Sound`), and then each chunk has what its record says, no more and no less
(`Record.Carried`).  Otherwise the first record that is not sound is named with its
position, and with its `Record.fault`.

* `Record.chunk_of_sound`, `Record.chunk_of_unsound`: one record.
* `Recording.chunksFrom_of_sound`, `Recording.chunksFrom_of_unsound`: records from a
  position on, by induction.
-/

namespace ResponseFraming

namespace Record

/-- Headers come with a status, and trailers with a completion. -/
def Sound (r : Record) : Prop :=
  (r.status.isSome ∨ r.headers = []) ∧ (r.complete ∨ r.trailers = none)

instance (r : Record) : Decidable r.Sound := inferInstanceAs (Decidable (_ ∧ _))

/-- What is found wrong with a record that is not sound: its headers before its trailers. -/
def fault (r : Record) : RecordFault :=
  if r.status = none ∧ r.headers ≠ [] then .fieldsWithoutStatus else .trailersWithoutCompletion

/-- A chunk has what a record says. -/
structure Carried (r : Record) (c : Chunk) : Prop where
  hasHead : c.hasHead = r.status.isSome
  status : c.head.map (·.status) = r.status
  /-- In order and with their repeats. -/
  headers : ∀ head, c.head = some head →
    head.fields.toList.map (fun f => (f.name, f.value)) = r.headers
  /-- The string's UTF-8 bytes; an empty payload is there and empty. -/
  data : c.data = r.payload.map fun s => s.toUTF8.data.toList
  isComplete : c.isComplete = r.complete
  /-- Empty trailers are there and empty. -/
  trailers :
    c.trailers?.map (fun t => t.fields.toList.map fun f => (f.name, f.value)) = r.trailers

variable {r : Record}

/-! ## One record -/

theorem head_of_sound (h : r.status.isSome ∨ r.headers = []) :
    r.head = .ok (r.status.map fun status => ⟨status, Fields.ofPairs r.headers⟩) := by
  cases hs : r.status with
  | some status => rw [head, hs, Option.map_some]
  | none =>
    have hn : r.headers = [] := h.resolve_left (by simp [hs])
    rw [head, hs, hn]
    rfl

theorem head_of_unsound (h : ¬ (r.status.isSome ∨ r.headers = [])) :
    r.head = .error .fieldsWithoutStatus ∧ r.fault = .fieldsWithoutStatus := by
  rw [not_or, Option.not_isSome_iff_eq_none] at h
  refine ⟨?_, if_pos h⟩
  rw [head, h.1]
  exact if_neg (by simpa using h.2)

theorem fault_of_headers (h : r.status.isSome ∨ r.headers = []) :
    r.fault = .trailersWithoutCompletion := by
  apply if_neg
  rintro ⟨hs, hn⟩
  rcases h with h | h
  · simp [hs] at h
  · exact hn h

theorem completion_of_sound (h : r.complete ∨ r.trailers = none) :
    r.completion =
      .ok (if r.complete then some ⟨r.trailers.map fun ps => ⟨Fields.ofPairs ps⟩⟩ else none) := by
  cases hc : r.complete with
  | true => simp only [completion, hc, if_true]
  | false =>
    have ht : r.trailers = none := h.resolve_left (by simp [hc])
    simp [completion, hc, ht]

theorem completion_of_unsound (h : ¬ (r.complete ∨ r.trailers = none)) :
    r.completion = .error .trailersWithoutCompletion := by
  rw [not_or] at h
  have ht : r.trailers.isSome := Option.isSome_iff_ne_none.mpr h.2
  rw [completion, if_neg h.1, if_pos ht]

theorem carried_of_describes {c : Chunk} (hr : r.complete ∨ r.trailers = none)
    (h : r.Describes c) : r.Carried c := by
  have hcomp := h.completion
  refine ⟨?_, ?_, ?_, ?_, ?_, ?_⟩
  · rw [Chunk.hasHead, h.head, Option.isSome_map]
  · rw [h.head]
    cases r.status <;> rfl
  · intro head hh
    rw [h.head] at hh
    obtain ⟨status, -, rfl⟩ := Option.map_eq_some_iff.mp hh
    exact Fields.toPairs_ofPairs r.headers
  · rw [h.data]
    exact congrArg (r.payload.map ·) (funext Utf8.encode_eq_toUTF8)
  · rw [Chunk.isComplete, hcomp]
    cases r.complete <;> rfl
  · cases hc : c.completion with
    | some completion => exact h.trailers hc
    | none =>
      rw [hc] at hcomp
      have hn : ¬ r.complete := fun hn => by simp [hn] at hcomp
      rw [hr.resolve_left hn, Chunk.trailers?, hc]
      rfl

/-- **A sound record is made into a chunk**, which has what the record says. -/
theorem chunk_of_sound (h : r.Sound) : ∃ c, r.chunk = .ok c ∧ r.Carried c := by
  have hc : ∃ c, r.chunk = .ok c := by
    rw [chunk, head_of_sound h.1, completion_of_sound h.2]
    exact ⟨_, rfl⟩
  obtain ⟨c, hc⟩ := hc
  exact ⟨c, hc, carried_of_describes h.2 (describes_of_chunk hc)⟩

/-- **A record that is not sound is refused** with its fault. -/
theorem chunk_of_unsound (h : ¬ r.Sound) : r.chunk = .error r.fault := by
  by_cases hh : r.status.isSome ∨ r.headers = []
  · have hc : ¬ (r.complete ∨ r.trailers = none) := fun hc => h ⟨hh, hc⟩
    rw [chunk, head_of_sound hh, completion_of_unsound hc, fault_of_headers hh]
    rfl
  · obtain ⟨hhead, hfault⟩ := head_of_unsound hh
    rw [chunk, hhead, hfault]
    rfl

end Record

/-! ## Recordings -/

namespace Recording

theorem chunksFrom_of_sound {rs : Recording} (n : Nat) (h : ∀ r ∈ rs, r.Sound) :
    ∃ cs, rs.chunksFrom n = .ok cs ∧ List.Forall₂ Record.Carried rs cs := by
  induction rs generalizing n with
  | nil => exact ⟨[], rfl, .nil⟩
  | cons r rs ih =>
    obtain ⟨c, hc, hr⟩ := Record.chunk_of_sound (h r List.mem_cons_self)
    obtain ⟨cs, hcs, hrs⟩ := ih (n + 1) fun q hq => h q (List.mem_cons_of_mem r hq)
    refine ⟨c :: cs, ?_, .cons hr hrs⟩
    rw [chunksFrom, hc, hcs]
    rfl

/-- The records in front are passed by, and those behind are not looked at. -/
theorem chunksFrom_of_unsound {before after : Recording} {r : Record} (n : Nat)
    (hb : ∀ q ∈ before, q.Sound) (hr : ¬ r.Sound) :
    chunksFrom n (before ++ r :: after) =
      .error ⟨[.record (n + before.length)], .record r.fault⟩ := by
  induction before generalizing n with
  | nil =>
    rw [List.nil_append, chunksFrom, Record.chunk_of_unsound hr]
    rfl
  | cons q before ih =>
    obtain ⟨c, hc, -⟩ := Record.chunk_of_sound (hb q List.mem_cons_self)
    have hn : n + 1 + before.length = n + (before.length + 1) := by omega
    have hi := ih (n + 1) fun p hp => hb p (List.mem_cons_of_mem q hp)
    rw [List.cons_append, chunksFrom, hc, hi, hn]
    rfl

theorem data_of_carried {rs : Recording} {cs : List Chunk} (h : List.Forall₂ Record.Carried rs cs) :
    cs.map (·.data) = rs.map fun r => r.payload.map fun s => s.toUTF8.data.toList := by
  induction h with
  | nil => rfl
  | cons hc _ ih => rw [List.map_cons, List.map_cons, hc.data, ih]

/-- Either all records are sound, or there is a first one that is not. -/
theorem sound_or_first (rs : Recording) :
    (∀ r ∈ rs, r.Sound) ∨
      ∃ before r after, rs = before ++ r :: after ∧ (∀ q ∈ before, q.Sound) ∧ ¬ r.Sound := by
  cases hf : rs.find? fun r => ¬ r.Sound with
  | none =>
    left
    simpa using hf
  | some r =>
    right
    obtain ⟨hr, before, after, rfl, hb⟩ := List.find?_eq_some_iff_append.mp hf
    exact ⟨before, r, after, rfl, by simpa using hb, by simpa using hr⟩

/-- **A recording is a response exactly if all its records are sound.**  Its chunks then have what
the records say, one by one.  If it is none, the failure is that of the first record that is not
sound: its context is the position of that record, counted from one, and its cause are headers
without a status, or else trailers without a completion. -/
theorem chunks_iff_sound (rs : Recording) :
    ((∃ cs, rs.chunks = .ok cs) ↔ ∀ r ∈ rs, r.Sound) ∧
      (∀ cs, rs.chunks = .ok cs → List.Forall₂ Record.Carried rs cs) ∧
      ∀ f, rs.chunks = .error f → ∃ before r after, rs = before ++ r :: after ∧
        (∀ q ∈ before, q.Sound) ∧ ¬ r.Sound ∧
        f = ⟨[.record (before.length + 1)], .record r.fault⟩ ∧
        f.chain = ["chunk " ++ toString (before.length + 1),
          if r.status = none ∧ r.headers ≠ [] then "headers given without a status"
          else "trailers given on a chunk that is not complete"] := by
  rcases sound_or_first rs with hall | ⟨before, r, after, rfl, hb, hr⟩
  · obtain ⟨cs, hcs, hcarried⟩ := chunksFrom_of_sound 1 hall
    have hok : rs.chunks = .ok cs := hcs
    refine ⟨⟨fun _ => hall, fun _ => ⟨cs, hok⟩⟩, fun cs' h => ?_, fun f h => ?_⟩
    · obtain rfl : cs = cs' := Except.ok.inj (hok.symm.trans h)
      exact hcarried
    · rw [hok] at h
      cases h
  · have herror : chunks (before ++ r :: after) =
        .error ⟨[.record (before.length + 1)], .record r.fault⟩ := by
      rw [chunks, chunksFrom_of_unsound 1 hb hr, Nat.add_comm]
    refine ⟨⟨?_, fun hall => absurd (hall r (by simp)) hr⟩, fun cs h => ?_, fun f h => ?_⟩
    · rintro ⟨cs, h⟩
      rw [herror] at h
      cases h
    · rw [herror] at h
      cases h
    · obtain rfl := Except.error.inj (herror.symm.trans h)
      refine ⟨before, r, after, rfl, hb, hr, rfl, ?_⟩
      rw [Record.fault]
      split <;> rfl

/-- Two chunks have the UTF-8 bytes of their payloads, one of them none; the empty payload and the
empty list of trailers are kept.  In the second recording two records are not sound; the first of
them has both faults and is named for its headers. -/
theorem chunks_iff_sound_twice :
    let first : Record := ⟨some 200, [("A", "1"), ("a", "2")], some "é€", false, none⟩
    let blank : Record := ⟨none, [], some "", false, none⟩
    let last : Record := ⟨none, [], none, true, some []⟩
    let both : Record := ⟨none, [("b", "3")], none, false, some []⟩
    let later : Record := ⟨none, [], some "x", false, some []⟩
    (∃ cs, chunks [first, blank, last] = .ok cs ∧
        List.Forall₂ Record.Carried [first, blank, last] cs ∧
        cs.map (·.data) = [some [0xC3, 0xA9, 0xE2, 0x82, 0xAC], some [], none]) ∧
      ∃ f, chunks [first, both, later] = .error f ∧
        f.chain = ["chunk 2", "headers given without a status"] := by
  intro first blank last both later
  have hok : ∀ r ∈ ([first, blank, last] : Recording), r.Sound := by decide
  obtain ⟨cs, hcs⟩ := (chunks_iff_sound [first, blank, last]).1.mpr hok
  have hcarried := (chunks_iff_sound [first, blank, last]).2.1 cs hcs
  have hdata : cs.map (·.data) = [some [0xC3, 0xA9, 0xE2, 0x82, 0xAC], some [], none] := by
    rw [data_of_carried hcarried]
    decide
  let f : Failure := ⟨[.record 2], .record .fieldsWithoutStatus⟩
  have hf : chunks [first, both, later] = .error f := rfl
  refine ⟨⟨cs, hcs, hcarried, hdata⟩, f, hf, ?_⟩
  obtain ⟨before, r, after, hrs, -, -, hfe, hchain⟩ :=
    (chunks_iff_sound [first, both, later]).2.2 f hf
  have hlen : before.length = 1 := by simpa [f] using (congrArg Failure.contexts hfe).symm
  obtain ⟨q, rfl⟩ := List.length_eq_one_iff.mp hlen
  cases hrs
  exact hchain.trans (by decide)

end Recording

end ResponseFraming
