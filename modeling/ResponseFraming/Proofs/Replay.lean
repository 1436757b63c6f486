import ResponseFraming.Proofs.Course
import ResponseFraming.Proofs.IllFormed
import ResponseFraming.Replay

/-!
# The report of a replay

A replay has neither pauses nor failing callbacks, so its report depends on the
policy and the chunks alone, and of those mostly on two positions: that of the
first late head, if the policy rejects it, and that of the first complete chunk.
`Ending.of` compares the two, and `account` is the report in this closed form.

A replay looks at no more of a course than its `Digest`.

* `digest_proceed`: the step of the recursion, for the first chunk and for any later one.
* `digest_later`, `digest_course`: the digest of the later chunks, by induction, and
  of a whole response.
* `digest_gather`: what gathering a response comes to, from which the report is read.
-/

namespace ResponseFraming

/-! ## Calls and releases -/

theorem calls_progress (es : List Event) : calls (progress es) = calls es := by
  refine Reading.of_kind (fun e he => ?_) es
  rcases e with _ | _ | _ | _ | _ | _ | _ | _ | _ | _ | _ <;> simp_all

theorem Parts.deliverAll_calls (p : Parts) (es : List Event) :
    p.deliverAll (calls es) = p.deliverAll es := by
  induction es generalizing p with
  | nil => rfl
  | cons e es ih =>
    rw [Reading.of_cons, calls_shows?,
      show p.deliverAll (e :: es) = (p.deliver e).deliverAll es from rfl]
    cases he : e.isCall with
    | true => exact ih (p.deliver e)
    | false =>
      have hp : p.deliver e = p := by cases e <;> simp_all [Parts.deliver]
      rw [hp]
      exact ih p

/-! ## Endings -/

/-- How a response ends.  The number is that of the chunks before the one at which it ends. -/
inductive Ending
  /-- At a late head. -/
  | rejected (i : Nat)
  /-- With a complete chunk. -/
  | complete (i : Nat)
  /-- With the transport. -/
  | exhausted
deriving DecidableEq, Repr

namespace Ending

/-- The ending, given the first late head and the first complete chunk.  The head of a chunk is
looked at before its completion. -/
def first : Option Nat → Option Nat → Ending
  | some r, some k => if r ≤ k then rejected r else complete k
  | some r, none => rejected r
  | none, some k => complete k
  | none, none => exhausted

/-- The first head that is rejected, among chunks none of which is the first of its response. -/
def lateHead? (policy : Policy) (chunks : List Chunk) : Option Nat :=
  match policy.lateHead with
  | .reject => chunks.findIdx? (·.hasHead)
  | .ignore => none

/-- **The ending of a response.** -/
def of (policy : Policy) (chunks : List Chunk) : Ending :=
  first ((lateHead? policy chunks.tail).map (· + 1)) (chunks.findIdx? (·.isComplete))

/-- The ending of chunks none of which is the first of its response. -/
def later (policy : Policy) (chunks : List Chunk) : Ending :=
  first (lateHead? policy chunks) (chunks.findIdx? (·.isComplete))

/-- The number of chunks that are pulled, out of so many. -/
def pulled (length : Nat) : Ending → Nat
  | rejected i | complete i => i + 1
  | exhausted => length

/-- The number of chunks whose payload is given, out of so many. -/
def accepted (length : Nat) : Ending → Nat
  | rejected i => i
  | complete i => i + 1
  | exhausted => length

/-- The breach of the rules, where `past` chunks have gone before. -/
def violation (policy : Policy) (past length : Nat) : Ending → Option Violation
  | rejected i => some (.lateHead (past + i + 1))
  | complete _ => none
  | exhausted => if policy.truncation = .strict then some (.truncated (past + length)) else none

/-- What the complete chunk has for trailers, if the response ends with one. -/
def trailers? (chunks : List Chunk) : Ending → Option (Option Trailers)
  | complete i => some (chunks[i]?.bind (·.trailers?))
  | _ => none

/-- The non-empty payloads before the end. -/
def payloads (chunks : List Chunk) (e : Ending) : List Bytes :=
  (chunks.take (e.accepted chunks.length)).filterMap (·.payload?)

def shift : Ending → Ending
  | rejected i => rejected (i + 1)
  | complete i => complete (i + 1)
  | exhausted => exhausted

theorem first_shift (r k : Option Nat) :
    first (r.map (· + 1)) (k.map (· + 1)) = (first r k).shift := by
  rcases r with _ | r <;> rcases k with _ | k
  · rfl
  · rfl
  · rfl
  · simp only [Option.map_some, first, Nat.add_le_add_iff_right]
    split <;> rfl

theorem first_complete (r : Option Nat) : first (r.map (· + 1)) (some 0) = complete 0 := by
  cases r <;> simp [first]

theorem first_rejected (k : Option Nat) : first (some 0) k = rejected 0 := by
  cases k <;> simp [first]

theorem pulled_shift (e : Ending) (length : Nat) :
    e.shift.pulled (length + 1) = e.pulled length + 1 := by
  cases e <;> rfl

theorem accepted_shift (e : Ending) (length : Nat) :
    e.shift.accepted (length + 1) = e.accepted length + 1 := by
  cases e <;> rfl

theorem violation_shift (e : Ending) (policy : Policy) (past length : Nat) :
    e.shift.violation policy past (length + 1) = e.violation policy (past + 1) length := by
  have hn : ∀ i, past + (i + 1) = past + 1 + i := by omega
  cases e with
  | rejected i => rw [shift, violation, violation, hn]
  | complete i => rfl
  | exhausted => rw [shift, violation, violation, hn]

theorem trailers?_shift (e : Ending) (c : Chunk) (chunks : List Chunk) :
    e.shift.trailers? (c :: chunks) = e.trailers? chunks := by
  cases e <;> rfl

theorem payloads_shift (e : Ending) (c : Chunk) (chunks : List Chunk) :
    e.shift.payloads (c :: chunks) = c.payload?.toList ++ e.payloads chunks := by
  rw [payloads, List.length_cons, accepted_shift, List.take_succ_cons, List.filterMap_cons]
  cases c.payload? <;> rfl

theorem of_cons (policy : Policy) (c : Chunk) (chunks : List Chunk) :
    of policy (c :: chunks) =
      if c.isComplete then complete 0 else (later policy chunks).shift := by
  rw [of, List.findIdx?_cons, List.tail_cons]
  split
  · exact first_complete _
  · exact first_shift _ _

theorem later_cons (policy : Policy) (c : Chunk) (chunks : List Chunk) :
    later policy (c :: chunks) =
      if c.head.isSome ∧ policy.lateHead = .reject then rejected 0
      else of policy (c :: chunks) := by
  cases hp : policy.lateHead with
  | ignore => simp [later, of, lateHead?, hp]
  | reject =>
    cases hh : c.head with
    | some head =>
      simpa [later, lateHead?, hp, List.findIdx?_cons, Chunk.hasHead, hh] using first_rejected _
    | none => simp [later, of, lateHead?, hp, List.findIdx?_cons, Chunk.hasHead, hh]

end Ending

/-- A late head on the complete chunk itself is a rejection, and no ending with trailers. -/
example (head : Head) (bytes : Bytes) :
    Ending.of .strict [.ofPayload bytes, (Chunk.last none).withHead head] = .rejected 1 := rfl

/-! ## Digests -/

/-- What a replay looks at in a course: the number of chunks, the items, the calls and releases. -/
structure Digest where
  pulled : Nat
  items : List Item
  calls : List Event
deriving DecidableEq, Repr

def Course.digest (c : Course) : Digest := ⟨c.pulled, items c.events, calls c.events⟩

theorem Course.digest_after (c : Course) (es : List Event) :
    (c.after es).digest =
      ⟨c.digest.pulled, ResponseFraming.items es ++ c.digest.items,
        ResponseFraming.calls es ++ c.digest.calls⟩ := by
  simp [digest, after]

namespace Ending

/-- The digest of an ending of chunks that follow `past` others, without the head. -/
def digest (policy : Policy) (past : Nat) (chunks : List Chunk) (e : Ending) : Digest :=
  { pulled := past + e.pulled chunks.length
    items := (e.payloads chunks).map .payload ++
      ((e.violation policy past chunks.length).map fun v => Item.error (.framing v)).toList
    calls := [(e.trailers? chunks).elim .trailersReleased .trailersCalled] }

theorem digest_shift (policy : Policy) (n : Nat) (c : Chunk) (chunks : List Chunk) (e : Ending) :
    e.shift.digest policy n (c :: chunks) =
      ⟨(e.digest policy (n + 1) chunks).pulled,
        (c.payload?.map Item.payload).toList ++ (e.digest policy (n + 1) chunks).items,
        (e.digest policy (n + 1) chunks).calls⟩ := by
  have hn : n + (e.pulled chunks.length + 1) = n + 1 + e.pulled chunks.length := by omega
  simp [digest, pulled_shift, payloads_shift, violation_shift, trailers?_shift, hn,
    Option.toList_map]

variable {t : Terms} {chunks : List Chunk} {rest : Course} {n : Nat}

/-- **The step**: the ending follows the course from one chunk to the next. -/
theorem digest_proceed (ht : t.onTrailers = none) (c : Chunk)
    (hr : rest.digest = (later t.policy chunks).digest t.policy (n + 1) chunks) :
    (t.proceed (n + 1) c.completion c.payload? rest).digest =
      (of t.policy (c :: chunks)).digest t.policy n (c :: chunks) := by
  rw [of_cons]
  cases hc : c.completion with
  | none =>
    rw [if_neg (by simp [Chunk.isComplete, hc]), digest_shift, Terms.proceed, Course.digest_after,
      hr]
    simp
  | some completion =>
    rw [if_pos (by simp [Chunk.isComplete, hc]), Terms.proceed, Terms.part, ht]
    cases hp : c.payload? <;>
      simp [Course.digest, Course.after, digest, pulled, payloads, accepted, violation, trailers?,
        Chunk.trailers?, hc, hp, giving]

/-- The chunks after the first end as the first late head and the first complete one among them
say. -/
theorem digest_later (ht : t.onTrailers = none) (hn : 0 < n) (chunks : List Chunk) :
    (t.course n (chunks.map .chunk)).digest = (later t.policy chunks).digest t.policy n chunks := by
  induction chunks generalizing n with
  | nil =>
    have he : later t.policy [] = exhausted := by
      cases hl : t.policy.lateHead <;> simp [later, lateHead?, hl, first]
    have hz : n ≠ 0 := by omega
    rw [he, List.map_nil, Terms.course, Terms.ending]
    cases hp : t.policy.truncation <;>
      simp [Course.digest, Course.after, Course.error, Course.unused, hz, digest, pulled, payloads,
        accepted, violation, trailers?, hp]
  | cons c chunks ih =>
    rw [List.map_cons, Terms.course, Course.digest_after, Terms.meet_later _ hn, later_cons]
    split
    · simp [Course.digest, Course.error, Course.unused, digest, pulled, payloads, accepted,
        violation, trailers?]
    · rw [digest_proceed ht c (ih (Nat.succ_pos n))]
      simp

def head? (chunks : List Chunk) : Option Head := chunks.head?.bind (·.head)

/-- **The digest of a whole response** whose callbacks do not fail. -/
theorem digest_course (hh : t.onHead = none) (ht : t.onTrailers = none) (chunks : List Chunk) :
    (t.course 0 (chunks.map .chunk)).digest =
      let d := (of t.policy chunks).digest t.policy 0 chunks
      { d with calls := (head? chunks).elim .headReleased .headCalled :: d.calls } := by
  cases chunks with
  | nil =>
    have he : of t.policy [] = exhausted := by
      cases hl : t.policy.lateHead <;> simp [of, lateHead?, hl, first]
    rw [he, List.map_nil, Terms.course, Terms.ending]
    cases hp : t.policy.truncation <;>
      simp [Course.digest, Course.after, Course.error, Course.unused, digest, pulled, payloads,
        accepted, violation, trailers?, head?, hp]
  | cons c chunks =>
    rw [List.map_cons, Terms.course, ← digest_proceed ht c (digest_later ht Nat.one_pos chunks)]
    cases hc : c.head with
    | none => simp [Terms.meet_headless, Course.digest_after, head?, hc]
    | some head =>
      simp [Terms.meet_first, Terms.greet, hh, Course.digest_after, head?, hc]

end Ending

/-! ## The report -/

/-- What has been gathered can be told from its items. -/
theorem gathered_inj {ps qs : List Bytes} {e f : Option StreamError}
    (h : ps.map Item.payload ++ (e.map Item.error).toList =
      qs.map Item.payload ++ (f.map Item.error).toList) : ps = qs ∧ e = f := by
  induction ps generalizing qs with
  | nil => rcases qs with _ | ⟨q, qs⟩ <;> cases e <;> cases f <;> simp_all
  | cons p ps ih =>
    cases qs with
    | nil => cases f <;> simp at h
    | cons q qs =>
      simp only [List.map_cons, List.cons_append, List.cons.injEq, Item.payload.injEq] at h
      obtain ⟨rfl, h⟩ := h
      obtain ⟨rfl, he⟩ := ih h
      exact ⟨rfl, he⟩

/-- What gathering a response without pauses and failures gives. -/
theorem digest_gather (chunks : List Chunk) (policy : Policy) :
    let body := (Demux.new (chunks.map .chunk) .immediate .immediate policy).gather
    let e := Ending.of policy chunks
    body.demux.pulled = e.pulled chunks.length ∧
      body.value = (e.payloads chunks, (e.violation policy 0 chunks.length).map .framing) ∧
      calls body.events =
        [(Ending.head? chunks).elim .headReleased .headCalled,
          (e.trailers? chunks).elim .trailersReleased .trailersCalled] := by
  intro body e
  have hd := Demux.consistent_new (chunks.map .chunk) .immediate .immediate policy
  have hc := Demux.forecast_of_finished hd (Demux.steps_gather _) (Demux.finished_of_gather hd)
  have hg := congrArg Course.digest (hc.symm.trans (Demux.forecast_new _ _ _ _))
  rw [Ending.digest_course rfl rfl] at hg
  simp only [Course.digest, items_progress, calls_progress, Demux.items_gather hd, Ending.digest,
    Digest.mk.injEq] at hg
  obtain ⟨hp, hi, hcalls⟩ := hg
  have hv := gathered_inj (f := (e.violation policy 0 chunks.length).map .framing)
    (hi.trans (by rw [Option.map_map]; rfl))
  exact ⟨by simpa using hp, Prod.ext hv.1 hv.2, hcalls⟩

/-- **The report in closed form.** -/
def account (chunks : List Chunk) (policy : Policy) : Report :=
  let e := Ending.of policy chunks
  let head := Ending.head? chunks
  let trailers := e.trailers? chunks
  { policy
    chunksSeen := e.pulled chunks.length
    status := head.map (·.status)
    headers := head.elim [] fun h => h.fields.toList.map fun f => (f.name, f.value)
    payloads := (e.payloads chunks).length
    body := Utf8.decodeLossy (e.payloads chunks).flatten
    trailers := trailers.bind fun t => t.map fun t => t.fields.toList.map fun f => (f.name, f.value)
    completed := trailers.isSome
    error := match e with
      | .rejected i =>
        some ("response head received on chunk " ++ toString (i + 1) ++
          "; a head is only valid on the first chunk")
      | .complete _ => none
      | .exhausted =>
        if policy.truncation = .strict then
          some ("response stream ended after " ++ toString chunks.length ++
            " chunk(s) without a terminal chunk")
        else none }

theorem error_account (chunks : List Chunk) (policy : Policy) :
    (account chunks policy).error =
      ((Ending.of policy chunks).violation policy 0 chunks.length).map (·.message) := by
  rw [account]
  cases Ending.of policy chunks with
  | rejected i => rw [Ending.violation, Nat.zero_add]; rfl
  | complete i => rfl
  | exhausted =>
    rw [Ending.violation, Nat.zero_add]
    dsimp only
    split <;> rfl

/-- What the receivers hold in the end. -/
theorem Parts.value?_deliverAll (source : Transport) (policy : Policy) (head : Option Head)
    (trailers : Option (Option Trailers)) :
    let parts := (Parts.new source policy).deliverAll
      [head.elim .headReleased .headCalled, trailers.elim .trailersReleased .trailersCalled]
    Receiver.value? parts.head = head ∧ Receiver.value? parts.trailers = trailers := by
  cases head <;> cases trailers <;> exact ⟨rfl, rfl⟩

theorem replay_eq (chunks : List Chunk) (policy : Policy) :
    replay chunks policy = account chunks policy := by
  obtain ⟨hp, hv, hc⟩ := digest_gather chunks policy
  obtain ⟨hhead, htrailers⟩ := Parts.value?_deliverAll (chunks.map .chunk) policy
    (Ending.head? chunks) ((Ending.of policy chunks).trailers? chunks)
  have hheaders : ((Ending.head? chunks).map (·.fields.toPairs)).getD [] =
      (account chunks policy).headers := by
    rw [account]
    cases Ending.head? chunks <;> rfl
  have herror := error_account chunks policy
  rw [replay, ← Parts.deliverAll_calls, hp, hv, hc, hhead, htrailers, Option.map_map, hheaders]
  exact congrArg (fun e => { account chunks policy with error := e }) herror.symm

/-- **A replay reports the account**, and the body is how the payloads together are read: each
character as itself, and U+FFFD for each part that is none. -/
theorem replay_eq_account (chunks : List Chunk) (policy : Policy) :
    replay chunks policy = account chunks policy ∧
      Utf8.Reads ((Ending.of policy chunks).payloads chunks).flatten
        (replay chunks policy).body.toList := by
  refine ⟨replay_eq chunks policy, ?_⟩
  rw [replay_eq]
  exact Utf8.reads_decodeLossy _

/-- The first late head is on the first complete chunk.  If it is rejected, that chunk's payload and
trailers are not reported. -/
theorem replay_eq_account_tie :
    let first := (Chunk.ofHead ⟨200, .ofPairs [("a", "1"), ("A", "2")]⟩).withPayload [0xC3, 0xA9]
    let last := ((Chunk.ofHead ⟨500, .empty⟩).withPayload [0x78]).complete (some .empty)
    let heads : Pairs := [("a", "1"), ("A", "2")]
    replay [first, last] ⟨.lenient, .reject⟩ =
        ⟨⟨.lenient, .reject⟩, 2, some 200, heads, 1, "é", none, false,
          some "response head received on chunk 2; a head is only valid on the first chunk"⟩ ∧
      replay [first, last] ⟨.lenient, .ignore⟩ =
        ⟨⟨.lenient, .ignore⟩, 2, some 200, heads, 2, "éx", some [], true, none⟩ := by
  intro first last heads
  exact ⟨(replay_eq_account [first, last] _).1.trans (by decide +kernel),
    (replay_eq_account [first, last] _).1.trans (by decide +kernel)⟩

end ResponseFraming
