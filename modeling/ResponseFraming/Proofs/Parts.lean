import ResponseFraming.Parts
import ResponseFraming.Proofs.Prompt

/-!
# The parts of a response do not disturb each other

An operation is on one of the three parts of a response, and nobody else learns of it
when that is a receiver: what is seen at the operations on the body and on the other
receiver is what would be seen without it.  The body does learn whether a receiver is still there,
when it sends to it; but its callbacks make nothing of that (`reply_eq`).

Two responses are alike for who looks at certain parts only if these parts are the same
(`Agree`).  An operation on one of them then shows the same in both and leaves them alike
(`Agree.perform`), an operation on another part changes nothing that is looked at
(`Agree.skip`), and by induction the operations on other parts can be left out
(`sights_filter`).

* `session_body`: the body by itself is a demultiplexer whose callbacks succeed at once.
* `parts_independent`: both together, for a new response.
-/

namespace ResponseFraming.Parts

inductive Part
  | body
  | head
  | trailers
deriving DecidableEq, Repr

def Operation.part : Operation → Part
  | .body _ => .body
  | .takeHead | .dropHead => .head
  | .takeTrailers | .dropTrailers => .trailers

def Operation.body? : Operation → Option Demux.Operation
  | .body operation => some operation
  | _ => none

/-- The body, and the receivers as chosen. -/
def Part.among (head trailers : Bool) : Part → Bool
  | .body => true
  | .head => head
  | .trailers => trailers

/-- What is seen at an operation: its result, what the body did upon it and the body after it. -/
structure Sight where
  body : Option Demux
  events : List Event
  result : Result
deriving DecidableEq, Repr

def Reaction.sight (r : Reaction) : Sight := ⟨r.parts.body, r.events, r.result⟩

/-- A demultiplexer's reaction as what is seen at an operation on a body. -/
def Sight.ofBody (r : Demux.Reaction) : Sight := ⟨r.demux, r.events, .body r.result⟩

/-- What is seen at the operations on some of the parts, out of all that are carried out. -/
def sights (keep : Part → Bool) (p : Parts) (operations : List Operation) : List Sight :=
  ((operations.zip (p.session operations)).filter (keep ·.1.part)).map (·.2.sight)

def remaining (p : Parts) (operations : List Operation) : Parts :=
  operations.foldl (fun p operation => (p.perform operation).parts) p

def record (p : Parts) (operations : List Operation) : List Event :=
  (p.session operations).flatMap (·.events)

variable {keep : Part → Bool} {p q : Parts}

theorem sights_cons (keep : Part → Bool) (p : Parts) (operation : Operation)
    (rest : List Operation) :
    p.sights keep (operation :: rest) =
      if keep operation.part then
        (p.perform operation).sight :: (p.perform operation).parts.sights keep rest
      else (p.perform operation).parts.sights keep rest := by
  rw [sights, session, List.zip_cons_cons, List.filter_cons]
  split <;> rfl

theorem remaining_cons (p : Parts) (operation : Operation) (rest : List Operation) :
    p.remaining (operation :: rest) = (p.perform operation).parts.remaining rest := rfl

theorem record_cons (p : Parts) (operation : Operation) (rest : List Operation) :
    p.record (operation :: rest) =
      (p.perform operation).events ++ (p.perform operation).parts.record rest := rfl

/-! ## Agreement -/

/-- Two responses have the same body, and the same receivers where these are looked at. -/
structure Agree (keep : Part → Bool) (p q : Parts) : Prop where
  body : p.body = q.body
  head : keep .head → p.head = q.head
  trailers : keep .trailers → p.trailers = q.trailers

theorem Agree.refl (keep : Part → Bool) (p : Parts) : Agree keep p p :=
  ⟨rfl, fun _ => rfl, fun _ => rfl⟩

/-- A send succeeds exactly if the receiver is there, whatever the value. -/
theorem isOk_offer {α : Type} (r : Option (Receiver α)) (value : α) :
    (Receiver.offer r value).isOk = r.isSome := by
  cases r <;> rfl

/-- What comes of a send does not matter to the callback. -/
theorem reply_eq (sent : Bool) : reply sent = .immediate := rfl

/-- The body learns nothing of the receivers. -/
theorem armed_eq (p : Parts) :
    p.armed = p.body.map fun d => { d with
      onHead := d.onHead.map fun _ => .immediate
      onTrailers := d.onTrailers.map fun _ => .immediate } := by
  simp only [armed, reply_eq]

theorem Agree.armed (h : Agree keep p q) : p.armed = q.armed := by
  rw [armed_eq, armed_eq, h.body]

theorem body_deliver (p : Parts) (e : Event) : (p.deliver e).body = p.body := by
  cases e <;> rfl

theorem body_deliverAll (p : Parts) (es : List Event) : (p.deliverAll es).body = p.body := by
  induction es generalizing p with
  | nil => rfl
  | cons e es ih => exact (ih (p.deliver e)).trans (p.body_deliver e)

/-- An event does to a receiver what it does, whatever the other one is. -/
theorem Agree.deliver (h : Agree keep p q) (e : Event) :
    Agree keep (p.deliver e) (q.deliver e) := by
  obtain ⟨hb, hh, ht⟩ := h
  refine ⟨?_, fun hk => ?_, fun hk => ?_⟩
  · rw [body_deliver, body_deliver, hb]
  · cases e <;> simp [Parts.deliver, hh hk]
  · cases e <;> simp [Parts.deliver, ht hk]

theorem Agree.deliverAll (h : Agree keep p q) (es : List Event) :
    Agree keep (p.deliverAll es) (q.deliverAll es) := by
  induction es generalizing p q with
  | nil => exact h
  | cons e es ih => exact ih (h.deliver e)

/-- **An operation on a part that is looked at** shows the same, and leaves the same. -/
theorem Agree.perform (h : Agree keep p q) {operation : Operation} (ho : keep operation.part) :
    (p.perform operation).sight = (q.perform operation).sight ∧
      Agree keep (p.perform operation).parts (q.perform operation).parts := by
  have harmed := h.armed
  obtain ⟨hb, hh, ht⟩ := h
  cases operation with
  | body operation =>
    have ha : Agree keep { p with body := (Demux.perform? q.armed operation).demux }
        { q with body := (Demux.perform? q.armed operation).demux } := ⟨rfl, hh, ht⟩
    simp only [Parts.perform, Reaction.sight, harmed, body_deliverAll, true_and]
    exact ha.deliverAll _
  | takeHead =>
    rw [Parts.perform, Parts.perform, hh ho]
    cases q.head with
    | none => exact ⟨by simp [Reaction.sight, hb], hb, hh, ht⟩
    | some r => exact ⟨by simp [Reaction.sight, hb], hb, fun _ => rfl, ht⟩
  | takeTrailers =>
    rw [Parts.perform, Parts.perform, ht ho]
    cases q.trailers with
    | none => exact ⟨by simp [Reaction.sight, hb], hb, hh, ht⟩
    | some r => exact ⟨by simp [Reaction.sight, hb], hb, hh, fun _ => rfl⟩
  | dropHead => exact ⟨by simp [Parts.perform, Reaction.sight, hb], hb, fun _ => rfl, ht⟩
  | dropTrailers => exact ⟨by simp [Parts.perform, Reaction.sight, hb], hb, hh, fun _ => rfl⟩

/-- **An operation on a receiver that is not looked at** changes nothing. -/
theorem Agree.skip (h : Agree keep p q) {operation : Operation} (hb : keep .body)
    (ho : ¬ keep operation.part) : Agree keep (p.perform operation).parts q := by
  obtain ⟨hbody, hh, ht⟩ := h
  cases operation with
  | body operation => exact absurd hb ho
  | takeHead =>
    rw [Parts.perform]
    split <;> exact ⟨hbody, fun hk => absurd hk ho, ht⟩
  | takeTrailers =>
    rw [Parts.perform]
    split <;> exact ⟨hbody, hh, fun hk => absurd hk ho⟩
  | dropHead => exact ⟨hbody, fun hk => absurd hk ho, ht⟩
  | dropTrailers => exact ⟨hbody, hh, fun hk => absurd hk ho⟩

/-- **Operations on receivers that are not looked at can be left out.** -/
theorem sights_filter (hb : keep .body) (h : Agree keep p q) (operations : List Operation) :
    p.sights keep operations =
      (q.session (operations.filter (keep ·.part))).map Reaction.sight := by
  induction operations generalizing p q with
  | nil => rfl
  | cons operation rest ih =>
    rw [sights_cons, List.filter_cons]
    by_cases ho : keep operation.part
    · obtain ⟨hs, ha⟩ := h.perform ho
      rw [if_pos ho, if_pos ho, session, List.map_cons, hs, ih ha]
    · rw [if_neg ho, if_neg ho, ih (h.skip hb ho)]

/-! ## The body by itself -/

theorem Operation.eq_body_of_body? {operation : Operation} {o : Demux.Operation}
    (h : operation.body? = some o) : operation = .body o := by
  cases operation with
  | body operation => exact congrArg Operation.body (Option.some.inj h)
  | _ => cases h

/-- Between the operations on the body nothing happens to it. -/
theorem perform_of_body?_eq_none {operation : Operation} (ho : operation.body? = none) :
    (p.perform operation).parts.body = p.body ∧ (p.perform operation).events = [] := by
  cases operation with
  | body operation => cases ho
  | takeHead =>
    rw [perform]
    split <;> exact ⟨rfl, rfl⟩
  | takeTrailers =>
    rw [perform]
    split <;> exact ⟨rfl, rfl⟩
  | dropHead => exact ⟨rfl, rfl⟩
  | dropTrailers => exact ⟨rfl, rfl⟩

/-- The body, if it is there, is between two operations and its callbacks succeed at once. -/
def AtRest (p : Parts) : Prop := ∀ d, p.body = some d → d.AtRest

theorem atRest_new (source : Transport) (policy : Policy) : (new source policy).AtRest := by
  intro d hd
  obtain rfl := Option.some.inj hd
  exact Demux.atRest_new source policy

theorem AtRest.armed (h : p.AtRest) : p.armed = p.body := by
  rw [armed_eq]
  cases hb : p.body with
  | none => rfl
  | some d =>
    have hmap : ∀ slot : Option Callback, (∀ callback, slot = some callback →
        callback = .immediate) → (slot.map fun _ => .immediate) = slot := by
      rintro (_ | callback) hc
      · rfl
      · rw [hc callback rfl, Option.map_some]
    have hp := (h d hb).prompt
    rw [Option.map_some, hmap _ fun c hc => hp c (.inl hc),
      hmap _ fun c hc => hp c (.inr (.inl hc))]

theorem sight_perform_body (h : p.AtRest) (operation : Demux.Operation) :
    (p.perform (.body operation)).sight = .ofBody (Demux.perform? p.body operation) := by
  rw [Reaction.sight, perform, body_deliverAll, h.armed]
  rfl

theorem body_perform_body (h : p.AtRest) (operation : Demux.Operation) :
    (p.perform (.body operation)).parts.body = (Demux.perform? p.body operation).demux :=
  congrArg Sight.body (sight_perform_body h operation)

/-- **No operation arms the callbacks otherwise.** -/
theorem AtRest.perform (h : p.AtRest) (operation : Operation) :
    (p.perform operation).parts.AtRest := by
  intro d hd
  cases ho : operation.body? with
  | none =>
    rw [(perform_of_body?_eq_none ho).1] at hd
    exact h d hd
  | some o =>
    obtain rfl := Operation.eq_body_of_body? ho
    rw [body_perform_body h] at hd
    cases hb : p.body with
    | none =>
      rw [hb] at hd
      cases hd
    | some d₀ =>
      rw [hb] at hd
      rcases Demux.settled_perform d₀ o (h d₀ hb) with ⟨d', hd', -, hrest⟩ | ⟨hn, -⟩
      · obtain rfl := Option.some.inj (hd'.symm.trans hd)
        exact hrest
      · cases hn.symm.trans hd

/-- **The body of a response is a demultiplexer by itself.** -/
theorem session_body (h : p.AtRest) (operations : List Operation) :
    let body := operations.filterMap Operation.body?
    p.sights (Part.among false false) operations = (Demux.session p.body body).map .ofBody ∧
      (p.remaining operations).body = Demux.remaining p.body body ∧
      p.record operations = Demux.record p.body body := by
  induction operations generalizing p with
  | nil => exact ⟨rfl, rfl, rfl⟩
  | cons operation rest ih =>
    intro body
    obtain ⟨hs, hr, he⟩ := ih (h.perform operation)
    rw [sights_cons, record_cons, remaining_cons, hs, hr, he]
    cases ho : operation.body? with
    | none =>
      have hk : ¬ Part.among false false operation.part := by
        cases operation <;> simp_all [Operation.body?, Operation.part, Part.among]
      have hbody : body = rest.filterMap Operation.body? := List.filterMap_cons_none ho
      obtain ⟨hb, hn⟩ := perform_of_body?_eq_none (p := p) ho
      rw [if_neg hk, hb, hn, hbody]
      exact ⟨rfl, rfl, rfl⟩
    | some o =>
      obtain rfl := Operation.eq_body_of_body? ho
      have hbody : body = o :: rest.filterMap Operation.body? := List.filterMap_cons_some ho
      have hk : Part.among false false (Operation.body o).part := rfl
      have hevents : (p.perform (.body o)).events = (Demux.perform? p.body o).events :=
        congrArg Sight.events (sight_perform_body h o)
      rw [if_pos hk, sight_perform_body h, body_perform_body h, hevents, hbody]
      exact ⟨rfl, rfl, rfl⟩

/-- **The parts of a response do not disturb each other.**  Whatever operations are carried out on
a response, those on a receiver, or on both, can be left out, and at all others nothing else is
seen.  At the operations on the body one sees what a demultiplexer shows whose callbacks succeed at
once; and also between them the body is that demultiplexer, with as many chunks pulled and as many
polls of the transport. -/
theorem parts_independent (source : Transport) (policy : Policy) (operations : List Operation) :
    let start := new source policy
    let demux := some (Demux.new source .immediate .immediate policy)
    let body := operations.filterMap Operation.body?
    (∀ head trailers : Bool,
      let keep := Part.among head trailers
      start.sights keep operations =
        (start.session (operations.filter (keep ·.part))).map Reaction.sight) ∧
    start.sights (Part.among false false) operations = (Demux.session demux body).map .ofBody ∧
    (start.remaining operations).body = Demux.remaining demux body ∧
    start.record operations = Demux.record demux body := by
  intro start demux body
  refine ⟨fun head trailers => ?_, session_body (atRest_new source policy) operations⟩
  exact sights_filter rfl (Agree.refl _ start) operations

end ResponseFraming.Parts
