import ResponseFraming.Proofs.Errors
import ResponseFraming.Proofs.Recording
import Mathlib.Logic.Relation

/-!
# How a response is cut into chunks

Where a response is cut makes no difference to what a consumer has of it.  `Recut` has
the two ways to cut it otherwise: to put in a chunk that carries nothing, and to cut a
chunk in two.  They move the positions of all later chunks and the bounds of payloads,
so the courses of the two responses differ; but both have the same `gist`, which is what
is left of a course without positions and bounds.

* `gist_course_shift`: the positions of later chunks make no difference.
* `gist_course_append`: a difference in gist can only arise where the chunks differ.
* `gist_course_pad`, `gist_course_split`: the two ways to recut, where they are applied.
* `Report.alike_of_gist`: what a report has from the gist.
-/

namespace ResponseFraming

/-! ## Recutting -/

/-- One chunk more, or one chunk cut in two. -/
inductive Recut : List Chunk → List Chunk → Prop
  /-- A chunk that carries nothing is put in, but not in front of the first. -/
  | pad (before after : List Chunk) (c : Chunk) (hb : before ≠ []) (hh : c.head = none)
      (hc : c.completion = none) (hp : c.data.getD [] = []) :
      Recut (before ++ after) (before ++ c :: after)
  /-- The payload is cut anywhere; the head stays with the first part, the completion with the
  second. -/
  | split (before after : List Chunk) (c : Chunk) (first second : Option Bytes)
      (hp : c.data.getD [] = first.getD [] ++ second.getD []) :
      Recut (before ++ c :: after)
        (before ++ ⟨c.head, first, none⟩ :: ⟨none, second, c.completion⟩ :: after)

/-- Whether two violations are of one kind, whatever numbers they name. -/
def Violation.SameKind : Violation → Violation → Prop
  | .truncated _, .truncated _ => True
  | .lateHead _, .lateHead _ => True
  | _, _ => False

/-- Reports that differ in the number of payloads and chunks at most, which an error names too. -/
structure Report.Alike (r s : Report) : Prop where
  policy : r.policy = s.policy
  status : r.status = s.status
  headers : r.headers = s.headers
  body : r.body = s.body
  trailers : r.trailers = s.trailers
  completed : r.completed = s.completed
  error : Option.Rel
    (fun e f => ∃ v w : Violation, v.SameKind w ∧ e = v.message ∧ f = w.message) r.error s.error

/-! ## Gists -/

namespace Violation

/-- The violation with no chunk to name. -/
def unnumbered : Violation → Violation
  | truncated _ => truncated 0
  | lateHead _ => lateHead 0

theorem sameKind_of_unnumbered {v w : Violation} (h : v.unnumbered = w.unnumbered) :
    v.SameKind w := by
  cases v <;> cases w
  · trivial
  · cases h
  · cases h
  · trivial

end Violation

def StreamError.unnumbered : StreamError → StreamError
  | framing v => framing v.unnumbered
  | e => e

/-- What is left of some events if it is not told at which chunk they happened and where payloads
begin. -/
structure Gist where
  body : Bytes
  errors : List StreamError
  calls : List Event
deriving DecidableEq, Repr

instance : Append Gist := ⟨fun g h => ⟨g.body ++ h.body, g.errors ++ h.errors, g.calls ++ h.calls⟩⟩

def gist (events : List Event) : Gist :=
  ⟨(payloads (items events)).flatten, (errors (items events)).map .unnumbered, calls events⟩

theorem Gist.append_assoc (g h k : Gist) : g ++ h ++ k = g ++ (h ++ k) := by
  show Gist.mk _ _ _ = Gist.mk _ _ _
  congr 1 <;> exact List.append_assoc _ _ _

theorem gist_append (es fs : List Event) : gist (es ++ fs) = gist es ++ gist fs := by
  show _ = Gist.mk _ _ _
  simp [gist]

theorem gist_transportPolled (signal : Signal) (es : List Event) :
    gist (.transportPolled signal :: es) = gist es := by simp [gist]

theorem gist_giving (payload : Option Bytes) :
    gist (giving payload) = ⟨payload.toList.flatten, [], []⟩ := by
  cases payload <;> rfl

theorem gist_giving_append {payload first second : Option Bytes}
    (h : payload.toList.flatten = first.toList.flatten ++ second.toList.flatten) :
    gist (giving payload) = gist (giving first) ++ gist (giving second) := by
  rw [gist_giving, gist_giving, gist_giving, h]
  rfl

theorem Course.gist_after (c : Course) (es : List Event) :
    gist (c.after es).events = gist es ++ gist c.events := gist_append es c.events

theorem Course.gist_after_polled (c : Course) (signal : Signal) :
    gist (c.after [.transportPolled signal]).events = gist c.events := gist_transportPolled _ _

/-! ## Positions -/

namespace Terms

open Course

variable {t : Terms} {rest rest' : Course} {n m : Nat}

theorem gist_error (hnm : n = 0 ↔ m = 0) {e f : StreamError} (h : e.unnumbered = f.unnumbered) :
    gist (error n e).events = gist (error m f).events := by
  simp only [error, unused, gist_append, hnm]
  congr 1
  simp [gist, h]

theorem gist_proceed (completion : Option Completion) (payload : Option Bytes)
    (h : gist rest.events = gist rest'.events) :
    gist (t.proceed n completion payload rest).events =
      gist (t.proceed m completion payload rest').events := by
  cases completion with
  | none => simp only [proceed, gist_after, h]
  | some completion =>
    simp only [proceed, part]
    cases t.onTrailers <;> rfl

theorem gist_ending (hnm : n = 0 ↔ m = 0) :
    gist (t.ending n).events = gist (t.ending m).events := by
  cases hp : t.policy.truncation with
  | lenient => simp only [ending, hp, unused, hnm]
  | strict =>
    simp only [ending, hp]
    exact gist_error hnm rfl

theorem gist_greet (h : gist rest.events = gist rest'.events) (hnm : n = 0 ↔ m = 0) :
    gist (t.greet n rest).events = gist (t.greet m rest').events := by
  cases hh : t.onHead with
  | none => simp only [greet, hh, gist_after, h]
  | some e =>
    simp only [greet, hh, gist_after]
    rw [gist_error hnm rfl]

/-- What the head of a chunk adds to two gists: it counts whether the chunk is the first of its
response, and nothing else about its position. -/
theorem gist_meet (hnm : n = 0 ↔ m = 0) (head : Option Head)
    (h : gist rest.events = gist rest'.events) :
    gist (t.meet (n + 1) head rest).events = gist (t.meet (m + 1) head rest').events := by
  rcases Nat.eq_zero_or_pos n with hn | hn
  · obtain rfl := hn
    obtain rfl := hnm.mp rfl
    cases head with
    | none => simp only [Nat.zero_add, meet_headless, gist_after, h]
    | some head => simp only [Nat.zero_add, meet_first, gist_after, gist_greet h Iff.rfl]
  · have hm : 0 < m := by omega
    rw [meet_later t hn, meet_later t hm]
    split
    · exact gist_error (by omega) rfl
    · exact h

/-- **A chunk adds the same to two gists** if it is the first of both or of neither. -/
theorem gist_course_cons (hnm : n = 0 ↔ m = 0) (c : Chunk) {source source' : Transport}
    (h : gist (t.course (n + 1) source).events = gist (t.course (m + 1) source').events) :
    gist (t.course n (.chunk c :: source)).events =
      gist (t.course m (.chunk c :: source')).events := by
  rw [course, course, gist_after_polled, gist_after_polled]
  exact gist_meet hnm c.head (gist_proceed c.completion c.payload? h)

/-- **The positions of chunks that are not the first make no difference.** -/
theorem gist_course_shift (hn : 0 < n) (hm : 0 < m) (source : Transport) :
    gist (t.course n source).events = gist (t.course m source).events := by
  have hnm : n = 0 ↔ m = 0 := by omega
  induction source generalizing n m with
  | nil =>
    rw [course, course, gist_after_polled, gist_after_polled]
    exact gist_ending hnm
  | cons signal source ih =>
    cases signal with
    | chunk c =>
      exact gist_course_cons hnm c (ih (Nat.succ_pos n) (Nat.succ_pos m) (by omega))
    | failed e =>
      rw [course, course, gist_after_polled, gist_after_polled]
      exact gist_error hnm rfl
    | pending => exact ih hn hm hnm
    | ended =>
      rw [course, course, gist_after_polled, gist_after_polled]
      exact gist_ending hnm

theorem gist_course_append (before : List Chunk) (n : Nat) {source source' : Transport}
    (h : gist (t.course (n + before.length) source).events =
      gist (t.course (n + before.length) source').events) :
    gist (t.course n (before.map .chunk ++ source)).events =
      gist (t.course n (before.map .chunk ++ source')).events := by
  induction before generalizing n with
  | nil => exact h
  | cons c before ih =>
    refine gist_course_cons Iff.rfl c (ih (n + 1) ?_)
    rwa [Nat.add_assoc, Nat.add_comm 1]

/-! ## The two ways to recut -/

/-- **A chunk that carries nothing adds nothing**, if it is not the first. -/
theorem gist_course_pad (hn : 0 < n) {c : Chunk} (hh : c.head = none) (hc : c.completion = none)
    (hp : c.payload? = none) (source : Transport) :
    gist (t.course n (.chunk c :: source)).events = gist (t.course n source).events := by
  have hs : t.course n (.chunk c :: source) =
      (t.course (n + 1) source).after [.transportPolled (.chunk c)] := by
    rw [course, meet_later t hn, hh, hc, hp]
    rfl
  rw [hs, gist_after_polled]
  exact gist_course_shift (Nat.succ_pos n) hn source

/-- The second part of a chunk gives the rest of its payload and has its completion. -/
theorem gist_course_second (ht : t.onTrailers = none) (completion : Option Completion)
    {payload first second : Option Bytes}
    (hp : payload.toList.flatten = first.toList.flatten ++ second.toList.flatten)
    (h : gist rest.events = gist rest'.events) :
    gist (t.proceed n completion payload rest).events =
      gist (giving first) ++ gist (t.proceed m completion second rest').events := by
  cases completion with
  | none =>
    simp only [proceed, gist_after]
    rw [h, gist_giving_append hp, Gist.append_assoc]
  | some completion =>
    have hpart : ∀ n payload, gist ((t.part n payload).after
        [.trailersCalled completion.trailers]).events =
          ⟨payload.toList.flatten, [], [.trailersCalled completion.trailers]⟩ := by
      intro n payload
      cases payload <;> simp [part, ht, after, gist, giving]
    rw [proceed, proceed, hpart, hpart, gist_giving, hp]
    rfl

/-- **A chunk that is cut in two adds what it added as one.** -/
theorem gist_course_split (ht : t.onTrailers = none) (n : Nat) (c : Chunk)
    {first second : Option Bytes} (hp : c.data.getD [] = first.getD [] ++ second.getD [])
    (source : Transport) :
    gist (t.course n (.chunk c :: source)).events =
      gist (t.course n (.chunk ⟨c.head, first, none⟩ ::
        .chunk ⟨none, second, c.completion⟩ :: source)).events := by
  let head : Chunk := ⟨c.head, first, none⟩
  let rest : Chunk := ⟨none, second, c.completion⟩
  have hs : t.course (n + 1) (.chunk rest :: source) =
      (t.proceed (n + 1 + 1) c.completion rest.payload? (t.course (n + 1 + 1) source)).after
        [.transportPolled (.chunk rest)] := by
    rw [course, meet_later t (Nat.succ_pos n)]
    rfl
  rw [course, course, gist_after_polled, gist_after_polled]
  -- the first part has the head and the position of the whole, so what the head does is the same
  refine gist_meet Iff.rfl c.head ?_
  rw [hs, proceed, gist_after, gist_after_polled]
  refine gist_course_second ht c.completion ?_
    (gist_course_shift (Nat.succ_pos n) (Nat.succ_pos (n + 1)) source)
  rw [Chunk.flatten_payload?, Chunk.flatten_payload?, Chunk.flatten_payload?, hp]

end Terms

/-- **Recutting a response leaves its gist.** -/
theorem gist_recut {t : Terms} (ht : t.onTrailers = none) {chunks chunks' : List Chunk}
    (h : Recut chunks chunks') :
    gist (t.course 0 (chunks.map .chunk)).events =
      gist (t.course 0 (chunks'.map .chunk)).events := by
  cases h with
  | pad before after c hb hh hc hp =>
    have hpos : 0 < 0 + before.length := by
      rw [Nat.zero_add]
      exact List.length_pos_iff.mpr hb
    have hnone : c.payload? = none := by
      obtain ⟨head, data, completion⟩ := c
      rcases data with _ | _ | ⟨b, bytes⟩
      · rfl
      · rfl
      · cases hp
    simp only [List.map_append, List.map_cons]
    exact Terms.gist_course_append before 0 (Terms.gist_course_pad hpos hh hc hnone _).symm
  | split before after c first second hp =>
    simp only [List.map_append, List.map_cons]
    exact Terms.gist_course_append before 0 (Terms.gist_course_split ht _ c hp _)

/-! ## Reports -/

theorem headUse_injective {a b : Option Head} (h : headUse a = headUse b) : a = b := by
  cases a <;> cases b <;> simp_all [headUse]

theorem trailersUse_injective {a b : Option (Option Trailers)}
    (h : trailersUse a = trailersUse b) : a = b := by
  cases a <;> cases b <;> simp_all [trailersUse]

theorem gist_course (policy : Policy) (chunks : List Chunk) :
    let e := Ending.of policy chunks
    gist (Terms.course ⟨policy, none, none⟩ 0 (chunks.map .chunk)).events =
      ⟨(e.payloads chunks).flatten,
        ((e.violation policy 0 chunks.length).map fun v => .framing v.unnumbered).toList,
        [headUse (Ending.head? chunks), trailersUse (e.trailers? chunks)]⟩ := by
  intro e
  have hc := Ending.digest_course (t := ⟨policy, none, none⟩) rfl rfl chunks
  simp only [Course.digest, Ending.digest, Digest.mk.injEq] at hc
  obtain ⟨-, hi, hcalls⟩ := hc
  rw [gist, hi, hcalls]
  cases hv : e.violation policy 0 chunks.length <;>
    simp [e, headUse, trailersUse, StreamError.unnumbered]

/-- **What a report has from the gist of a response.** -/
theorem Report.alike_of_gist {policy : Policy} {chunks chunks' : List Chunk}
    (h : gist (Terms.course ⟨policy, none, none⟩ 0 (chunks.map .chunk)).events =
      gist (Terms.course ⟨policy, none, none⟩ 0 (chunks'.map .chunk)).events) :
    (replay chunks policy).Alike (replay chunks' policy) := by
  rw [gist_course, gist_course, Gist.mk.injEq, List.cons.injEq, List.cons.injEq] at h
  obtain ⟨hbody, herror, hhead, htrailers, -⟩ := h
  replace hhead := headUse_injective hhead
  replace htrailers := trailersUse_injective htrailers
  obtain ⟨hh, ht⟩ := receivers_gather chunks policy
  obtain ⟨hh', ht'⟩ := receivers_gather chunks' policy
  rw [← hhead] at hh'
  rw [← htrailers] at ht'
  exact
    { policy := rfl
      status := by rw [replay, replay, hh, hh']
      headers := by rw [replay, replay, hh, hh']
      body := by rw [body_replay, body_replay, hbody]
      trailers := by rw [replay, replay, ht, ht']
      completed := by rw [replay, replay, ht, ht']
      error := by
        rw [error_replay, error_replay]
        generalize Ending.violation policy 0 chunks.length _ = v at herror ⊢
        generalize Ending.violation policy 0 chunks'.length _ = w at herror ⊢
        cases v with
        | none =>
          cases w with
          | none => exact .none
          | some w => cases herror
        | some v =>
          cases w with
          | none => cases herror
          | some w =>
            simp only [Option.map_some, Option.toList_some, List.cons.injEq,
              StreamError.framing.injEq, and_true] at herror
            exact .some ⟨v, w, Violation.sameKind_of_unnumbered herror, rfl, rfl⟩ }

/-- **How a response is cut makes no difference.**  However often a response is recut, what is
replayed of it is the same but for the number of payloads and of chunks, also where a character or
an ill-formed part of the body is cut through. -/
theorem replay_recut {chunks chunks' : List Chunk} (policy : Policy)
    (h : Relation.ReflTransGen Recut chunks chunks') :
    (replay chunks policy).Alike (replay chunks' policy) := by
  apply Report.alike_of_gist
  induction h with
  | refl => rfl
  | tail _ hr ih => exact ih.trans (gist_recut rfl hr)

/-- A body whose first character is cut through and whose second ends in an ill-formed part; the
chunk that carries nothing is put in before a head that is rejected. -/
theorem replay_recut_character :
    let first := (Chunk.ofPayload [0xC3, 0xA9]).withHead ⟨200, .empty⟩
    let late := (Chunk.last none).withHead ⟨200, .empty⟩
    let left : Chunk := ⟨first.head, some [0xC3], none⟩
    let right : Chunk := ⟨none, some [0xA9], none⟩
    let chunks := [first, .ofPayload [0xC3], late]
    let chunks' := [left, right, .ofPayload [0xC3], .ofPayload [], late]
    Relation.ReflTransGen Recut chunks chunks' ∧
      (replay chunks .strict).Alike (replay chunks' .strict) ∧
      (replay chunks .strict).body = "é\uFFFD" ∧ (replay chunks .strict).payloads = 2 ∧
      (replay chunks' .strict).payloads = 3 := by
  intro first late left right chunks chunks'
  have hsplit : Recut chunks [left, right, .ofPayload [0xC3], late] :=
    .split [] [.ofPayload [0xC3], late] first (some [0xC3]) (some [0xA9]) rfl
  have hpad : Recut [left, right, .ofPayload [0xC3], late] chunks' :=
    .pad [left, right, .ofPayload [0xC3]] [late] (.ofPayload []) (by simp) rfl rfl rfl
  have h := (Relation.ReflTransGen.single hsplit).tail hpad
  exact ⟨h, replay_recut .strict h, by decide +kernel, by decide +kernel, by decide +kernel⟩

end ResponseFraming
