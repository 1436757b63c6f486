import ResponseFraming.Proofs.Transition

/-!
# Chunks put together call by call

A chunk is begun in one of four ways, and then each call sets one of its parts: head, payload
or completion.  Of each part the last call counts (`foldl_call_last`), so calls for
different parts may change places.  There are two views of the chunk, by its accessors and its
`Shape` and by its `facets`, and both say what was set last, where an empty payload is none.

* `assembled_eq_last`: the chunk in terms of the last calls.
* `call_comm`: calls for different parts commute.
* `Slots.Hold.call`: the same calls on a record that keeps the flag of completion and the
  trailers apart, which is read to the same effect (`hold_assembled`).
* `views_of_assembled`: what the two views say, and which chunks they cannot tell apart.
-/

namespace ResponseFraming

namespace Chunk

inductive Seed
  | empty
  | head (head : Head)
  | payload (bytes : Bytes)
  | last (trailers : Option Trailers)

inductive Call
  | withHead (head : Head)
  | withPayload (bytes : Bytes)
  | complete (trailers : Option Trailers)

inductive Part
  | head
  | payload
  | completion

def Seed.chunk : Seed → Chunk
  | empty => Chunk.empty
  | head h => ofHead h
  | payload bytes => ofPayload bytes
  | last trailers => Chunk.last trailers

def Seed.calls : Seed → List Call
  | empty => []
  | head h => [.withHead h]
  | payload bytes => [.withPayload bytes]
  | last trailers => [.complete trailers]

def call (c : Chunk) : Call → Chunk
  | .withHead h => c.withHead h
  | .withPayload bytes => c.withPayload bytes
  | .complete trailers => c.complete trailers

/-- The chunk that a beginning and some calls make. -/
def assembled (seed : Seed) (calls : List Call) : Chunk := calls.foldl call seed.chunk

namespace Call

def part : Call → Part
  | withHead _ => .head
  | withPayload _ => .payload
  | complete _ => .completion

def head? : Call → Option Head
  | withHead h => some h
  | _ => none

def payload? : Call → Option Bytes
  | withPayload bytes => some bytes
  | _ => none

def trailers? : Call → Option (Option Trailers)
  | complete trailers => some trailers
  | _ => none

end Call

/-- What the last of some calls sets, among those that set it. -/
def lastOf {α : Type} (write : Call → Option α) (calls : List Call) : Option α :=
  (calls.filterMap write).getLast?

variable {α : Type}

theorem isSome_lastOf (write : Call → Option α) (calls : List Call) :
    (lastOf write calls).isSome ↔ ∃ k ∈ calls, (write k).isSome := by
  rw [lastOf, List.getLast?_isSome]
  constructor
  · intro h
    obtain ⟨a, ha⟩ := List.exists_mem_of_ne_nil _ h
    obtain ⟨k, hk, hw⟩ := List.mem_filterMap.mp ha
    exact ⟨k, hk, by rw [hw]; rfl⟩
  · rintro ⟨k, hk, hw⟩
    obtain ⟨a, ha⟩ := Option.isSome_iff_exists.mp hw
    exact List.ne_nil_of_mem (List.mem_filterMap.mpr ⟨k, hk, ha⟩)

/-! ## The last call counts -/

/-- **The last call for a part decides it**, where `read` gives the part of a chunk and `write` what
a call makes of it. -/
theorem foldl_call_last {read : Chunk → Option α} {write : Call → Option α}
    (hcall : ∀ c k, read (c.call k) = (write k).or (read c)) (c : Chunk) (calls : List Call) :
    read (calls.foldl call c) = (lastOf write calls).or (read c) := by
  induction calls generalizing c with
  | nil => rfl
  | cons k calls ih =>
    rw [List.foldl_cons, ih, hcall]
    cases hw : write k with
    | none => rw [lastOf, lastOf, List.filterMap_cons_none hw, Option.none_or]
    | some a =>
      rw [lastOf, lastOf, List.filterMap_cons_some hw, List.getLast?_cons, Option.some_or]
      cases (calls.filterMap write).getLast? <;> rfl

theorem assembled_eq_foldl (seed : Seed) (calls : List Call) :
    assembled seed calls = (seed.calls ++ calls).foldl call empty := by
  cases seed <;> rfl

theorem read_assembled (read : Chunk → Option α) (write : Call → Option α)
    (hempty : read empty = none) (hcall : ∀ c k, read (c.call k) = (write k).or (read c))
    (seed : Seed) (calls : List Call) :
    read (assembled seed calls) = lastOf write (seed.calls ++ calls) := by
  rw [assembled_eq_foldl, foldl_call_last hcall, hempty, Option.or_none]

/-- **The chunk is made of what was set last.** -/
theorem assembled_eq_last (seed : Seed) (calls : List Call) :
    assembled seed calls =
      ⟨lastOf Call.head? (seed.calls ++ calls), lastOf Call.payload? (seed.calls ++ calls),
        (lastOf Call.trailers? (seed.calls ++ calls)).map Completion.mk⟩ := by
  have hhead := read_assembled head Call.head? rfl
    (fun c k => by cases k <;> rfl) seed calls
  have hdata := read_assembled data Call.payload? rfl
    (fun c k => by cases k <;> rfl) seed calls
  have hcompletion := read_assembled completion (fun k => k.trailers?.map Completion.mk) rfl
    (fun c k => by cases k <;> rfl) seed calls
  rw [lastOf, ← List.map_filterMap, List.getLast?_map, ← lastOf] at hcompletion
  rw [← hhead, ← hdata, ← hcompletion]

/-- Calls for different parts may change places. -/
theorem call_comm (c : Chunk) {a b : Call} (h : a.part ≠ b.part) :
    (c.call a).call b = (c.call b).call a := by
  cases a with
  | withHead head =>
    cases b with
    | withHead head' => exact absurd rfl h
    | _ => rfl
  | withPayload bytes =>
    cases b with
    | withPayload bytes' => exact absurd rfl h
    | _ => rfl
  | complete trailers =>
    cases b with
    | complete trailers' => exact absurd rfl h
    | _ => rfl

theorem assembled_swap (seed : Seed) (before after : List Call) {a b : Call}
    (h : a.part ≠ b.part) :
    assembled seed (before ++ a :: b :: after) = assembled seed (before ++ b :: a :: after) := by
  rw [assembled, assembled, List.foldl_append, List.foldl_append, List.foldl_cons, List.foldl_cons,
    List.foldl_cons, List.foldl_cons, call_comm _ h]

/-! ## Slots -/

/-- A chunk with the flag of completion and the trailers apart, so that there can be trailers
without the flag. -/
structure Slots where
  head : Option Head
  data : Option Bytes
  complete : Bool
  trailers : Option Trailers

namespace Slots

def empty : Slots := ⟨none, none, false, none⟩

def call (s : Slots) : Call → Slots
  | .withHead h => { s with head := some h }
  | .withPayload bytes => { s with data := some bytes }
  | .complete trailers => { s with complete := true, trailers }

def trailers? (s : Slots) : Option Trailers := if s.complete then s.trailers else none

def completion (s : Slots) : Option Completion :=
  if s.complete then some ⟨s.trailers⟩ else none

def chunk (s : Slots) : Chunk := ⟨s.head, s.data, s.completion⟩

/-- What is in the slots is a chunk, and there are trailers with the flag only. -/
structure Hold (s : Slots) (c : Chunk) : Prop where
  chunk_eq : s.chunk = c
  complete_eq : s.complete = c.isComplete
  trailers_eq : s.trailers? = c.trailers?
  completion_eq : s.completion = c.facets.2.completion
  sound : s.complete = false → s.trailers = none

theorem hold_chunk {s : Slots} (h : s.complete = false → s.trailers = none) : s.Hold s.chunk := by
  obtain ⟨head, data, complete, trailers⟩ := s
  cases complete with
  | false => exact ⟨rfl, rfl, rfl, rfl, h⟩
  | true => exact ⟨rfl, rfl, rfl, rfl, nofun⟩

theorem Hold.call {s : Slots} {c : Chunk} (h : s.Hold c) (k : Call) :
    (s.call k).Hold (c.call k) := by
  have hchunk : (s.call k).chunk = c.call k := by
    rw [← h.chunk_eq]
    cases k <;> rfl
  have hsound : (s.call k).complete = false → (s.call k).trailers = none := by
    cases k with
    | complete trailers => nofun
    | _ => exact h.sound
  exact hchunk ▸ hold_chunk hsound

theorem hold_foldl {s : Slots} {c : Chunk} (h : s.Hold c) (calls : List Call) :
    (calls.foldl Slots.call s).Hold (calls.foldl Chunk.call c) := by
  induction calls generalizing s c with
  | nil => exact h
  | cons k calls ih => exact ih (h.call k)

end Slots

/-- Slots that were empty hold the chunk after the same calls. -/
theorem hold_assembled (seed : Seed) (calls : List Call) :
    ((seed.calls ++ calls).foldl Slots.call .empty).Hold (assembled seed calls) := by
  rw [assembled_eq_foldl]
  exact Slots.hold_foldl (Slots.hold_chunk fun _ => rfl) _

/-! ## Views -/

theorem isMetadata_iff (c : Chunk) :
    c.facets.2.isMetadata ↔ c.payload? = none ∧ c.completion = none := by
  rw [Body.isMetadata, facets_payload, Bool.and_eq_true, Option.isNone_iff_eq_none,
    Option.isNone_iff_eq_none]
  exact Iff.rfl

theorem payload?_eq_some_iff (c : Chunk) (bytes : Bytes) :
    c.payload? = some bytes ↔ c.data = some bytes ∧ bytes ≠ [] := by
  obtain ⟨head, data, completion⟩ := c
  rcases data with _ | _ | ⟨b, rest⟩
  · simp [payload?]
  · simp [payload?]
  · constructor
    · intro h
      exact ⟨h, by rintro rfl; cases h⟩
    · intro h
      exact h.1

/-- Both views of a chunk say what was set last by some calls. -/
structure Tells (c : Chunk) (calls : List Call) : Prop where
  head_eq : c.facets.1 = lastOf Call.head? calls
  hasHead_iff : c.hasHead ↔ ∃ head, .withHead head ∈ calls
  /-- An empty payload is none, even after one that was not empty. -/
  payload_iff : ∀ bytes,
    c.payload? = some bytes ↔ lastOf Call.payload? calls = some bytes ∧ bytes ≠ []
  payload_eq : c.facets.2.payload = c.payload?
  isComplete_iff : c.isComplete ↔ ∃ trailers, .complete trailers ∈ calls
  completion_iff : c.facets.2.completion.isSome ↔ ∃ trailers, .complete trailers ∈ calls
  /-- No trailers are none, even after some. -/
  trailers_iff : ∀ trailers,
    c.trailers? = some trailers ↔ lastOf Call.trailers? calls = some (some trailers)
  trailers_eq : (c.facets.2.completion.bind (·.trailers)) = c.trailers?
  /-- The shape, which is of the accessors, in terms of the facets. -/
  shape_eq : c.shape =
    ⟨c.facets.1.isSome, c.facets.2.payload.isSome, c.facets.2.completion.isSome,
      (c.facets.2.completion.bind (·.trailers)).isSome⟩
  isMetadata_iff : c.facets.2.isMetadata ↔
    (∀ bytes, lastOf Call.payload? calls = some bytes → bytes = []) ∧
      ∀ trailers, .complete trailers ∉ calls

/-- The same is set, but an empty payload where the others set none. -/
structure EmptyForNone (calls calls' : List Call) : Prop where
  head : lastOf Call.head? calls = lastOf Call.head? calls'
  completion : lastOf Call.trailers? calls = lastOf Call.trailers? calls'
  empty : lastOf Call.payload? calls = some []
  absent : lastOf Call.payload? calls' = none

theorem exists_withHead_iff (calls : List Call) :
    (∃ head, .withHead head ∈ calls) ↔ (lastOf Call.head? calls).isSome := by
  rw [isSome_lastOf]
  constructor
  · rintro ⟨head, h⟩
    exact ⟨_, h, rfl⟩
  · rintro ⟨k, h, hk⟩
    cases k with
    | withHead head => exact ⟨head, h⟩
    | _ => cases hk

theorem exists_complete_iff (calls : List Call) :
    (∃ trailers, .complete trailers ∈ calls) ↔ (lastOf Call.trailers? calls).isSome := by
  rw [isSome_lastOf]
  constructor
  · rintro ⟨trailers, h⟩
    exact ⟨_, h, rfl⟩
  · rintro ⟨k, h, hk⟩
    cases k with
    | complete trailers => exact ⟨trailers, h⟩
    | _ => cases hk

theorem tells_of_eq {c : Chunk} {calls : List Call}
    (h : c = ⟨lastOf Call.head? calls, lastOf Call.payload? calls,
      (lastOf Call.trailers? calls).map Completion.mk⟩) : c.Tells calls := by
  have hpayload : ∀ bytes,
      c.payload? = some bytes ↔ lastOf Call.payload? calls = some bytes ∧ bytes ≠ [] := by
    intro bytes
    rw [payload?_eq_some_iff, h]
  have hcomplete : c.completion.isSome ↔ ∃ trailers, .complete trailers ∈ calls := by
    rw [exists_complete_iff, h, Option.isSome_map]
  exact
    { head_eq := by
        rw [h]
        rfl
      hasHead_iff := by
        rw [exists_withHead_iff, h]
        rfl
      payload_iff := hpayload
      payload_eq := facets_payload c
      isComplete_iff := hcomplete
      completion_iff := hcomplete
      trailers_iff := fun trailers => by
        rw [h, trailers?]
        cases lastOf Call.trailers? calls <;> simp
      trailers_eq := rfl
      shape_eq := by
        rw [facets_payload]
        rfl
      isMetadata_iff := by
        have hnone : c.completion = none ↔ ¬ c.completion.isSome :=
          Option.not_isSome_iff_eq_none.symm
        rw [isMetadata_iff, hnone, hcomplete, not_exists]
        refine and_congr_left fun _ => ?_
        rw [Option.eq_none_iff_forall_ne_some]
        simp only [ne_eq, hpayload, not_and, Decidable.not_not] }

/-- **The two views of a chunk agree**, and both say what was set last, as does a record with flag
and trailers apart.  Calls for different parts commute, and an empty payload cannot be told from
none in either view, though the chunks differ. -/
theorem views_of_assembled (seed : Seed) (calls : List Call) :
    let c := assembled seed calls
    c.Tells (seed.calls ++ calls) ∧
      ((seed.calls ++ calls).foldl Slots.call .empty).Hold c ∧
      (∀ before a b after, calls = before ++ a :: b :: after → a.part ≠ b.part →
        assembled seed (before ++ b :: a :: after) = c) ∧
      ∀ seed' calls', EmptyForNone (seed.calls ++ calls) (seed'.calls ++ calls') →
        let c' := assembled seed' calls'
        c.shape = c'.shape ∧ c.facets = c'.facets ∧ c ≠ c' := by
  intro c
  refine ⟨tells_of_eq (assembled_eq_last seed calls), hold_assembled seed calls, ?_, ?_⟩
  · rintro before a b after rfl h
    exact assembled_swap seed before after h.symm
  · intro seed' calls' h
    have hc : c = ⟨lastOf Call.head? (seed'.calls ++ calls'), some [],
        (lastOf Call.trailers? (seed'.calls ++ calls')).map Completion.mk⟩ := by
      rw [← h.head, ← h.completion, ← h.empty]
      exact assembled_eq_last seed calls
    rw [assembled_eq_last seed' calls', h.absent, hc]
    exact ⟨rfl, rfl, by simp⟩

/-- An empty payload takes the place of one that was not empty, and the last completion has no
trailers whatever came before it. -/
example :
    let c := assembled (.payload [104]) [.complete (some .empty), .withPayload [], .complete none]
    c.payload? = none ∧ c.trailers? = none ∧ c.shape.text = "complete" ∧
      c.facets = (Chunk.last none).facets ∧ c ≠ Chunk.last none := by decide +kernel

end Chunk

end ResponseFraming
