import ResponseFraming.Proofs.Transition
import Mathlib.Tactic.Simps.Basic

/-!
# Readings of the record

What can be read off a list of events is read off them one by one: each event shows one thing or
nothing.  Such a `Reading` is determined by what single events show, and so are its laws.

* `Reading.of_append`, `Reading.mem_of`: any reading, of any list.
* `Reading.of_releases`, `Reading.of_headNotes`, ...: what a reading finds in the events that the
  steps have in common, by what it makes of log entries and releases.
* `items`, `delivered`, `calls`: the readings that are used throughout.
-/

namespace ResponseFraming

/-- What the elements of a list show. -/
structure Reading (α β : Type) where
  shows? : α → Option β

namespace Reading

variable {α β γ : Type}

/-- All that a list shows, in order. -/
def of (r : Reading α β) (as : List α) : List β := as.filterMap r.shows?

instance : CoeFun (Reading α β) fun _ => List α → List β := ⟨of⟩

@[simps] def kind (p : α → Bool) : Reading α α where
  shows? a := if p a then some a else none

variable {r : Reading α β} {p : α → Bool} {as : List α}

@[simp] theorem of_nil (r : Reading α β) : r [] = [] := rfl

@[simp] theorem of_cons (r : Reading α β) (a : α) (as : List α) :
    r (a :: as) = (r.shows? a).toList ++ r as := by
  unfold of
  rw [List.filterMap_cons]
  cases r.shows? a <;> rfl

@[simp] theorem of_append (r : Reading α β) (as bs : List α) : r (as ++ bs) = r as ++ r bs :=
  List.filterMap_append

theorem mem_of {b : β} : b ∈ r as ↔ ∃ a ∈ as, r.shows? a = some b := List.mem_filterMap

theorem of_eq_nil : r as = [] ↔ ∀ a ∈ as, r.shows? a = none := List.filterMap_eq_nil_iff

theorem mem_kind {a : α} : a ∈ kind p as ↔ a ∈ as ∧ p a := by
  rw [mem_of]
  constructor
  · rintro ⟨b, hb, h⟩
    rw [kind_shows?] at h
    split at h
    · obtain rfl := Option.some.inj h
      exact ⟨hb, ‹_›⟩
    · cases h
  · rintro ⟨ha, hp⟩
    exact ⟨a, ha, by rw [kind_shows?, if_pos hp]⟩

theorem of_eq_self {r : Reading α α} (h : ∀ a ∈ as, r.shows? a = some a) : r as = as := by
  induction as with
  | nil => rfl
  | cons a as ih =>
    rw [List.forall_mem_cons] at h
    rw [of_cons, h.1, ih h.2]
    rfl

/-- What only one kind of elements shows can be read off those. -/
theorem of_kind (h : ∀ a, p a = false → r.shows? a = none) (as : List α) :
    r (kind p as) = r as := by
  induction as with
  | nil => rfl
  | cons a as ih =>
    cases hp : p a with
    | true => simp [hp, ih]
    | false => simp [hp, ih, h a hp]

/-! ### The events that steps have in common -/

variable {r : Reading Event β}

@[simp] theorem of_giving (h : ∀ bytes, r.shows? (.answered (.item (.payload bytes))) = none)
    (payload : Option Bytes) : r (giving payload) = [] := by
  cases payload <;> simp [giving, h]

@[simp] theorem of_giving_self {r : Reading Event Event}
    (h : ∀ bytes, r.shows? (.answered (.item (.payload bytes))) =
      some (.answered (.item (.payload bytes)))) (payload : Option Bytes) :
    r (giving payload) = giving payload := by
  cases payload <;> simp [giving, h]

@[simp] theorem of_releases (hh : r.shows? .headReleased = none)
    (ht : r.shows? .trailersReleased = none) (d : Demux) : r d.releases = [] := by
  unfold Demux.releases
  cases d.onHead <;> cases d.onTrailers <;> simp [hh, ht]

@[simp] theorem of_headNotes (hn : r.shows? (.log .noHead) = none)
    (hh : r.shows? .headReleased = none)
    (hl : ∀ index, r.shows? (.log (.lateHeadIgnored index)) = none) (d : Demux) (c : Chunk) :
    r (d.headNotes c) = [] := by
  unfold Demux.headNotes
  split <;> simp [hn, hh, hl]

@[simp] theorem of_skipNotes (hl : ∀ index, r.shows? (.log (.metadataSkipped index)) = none)
    (d : Demux) (payload : Option Bytes) : r (d.skipNotes payload) = [] := by
  cases payload <;> simp [Demux.skipNotes, hl]

@[simp] theorem of_yieldNotes (hl : ∀ length, r.shows? (.log (.yielding length)) = none)
    (payload : Option Bytes) : r (Demux.yieldNotes payload) = [] := by
  cases payload <;> simp [Demux.yieldNotes, hl]

end Reading

@[simp] theorem mem_giving {e : Event} {payload : Option Bytes} :
    e ∈ giving payload ↔
      ∃ bytes, payload = some bytes ∧ e = .answered (.item (.payload bytes)) := by
  cases payload <;> simp [giving]

/-! ## The readings that are used throughout -/

@[simp] def Answer.item? : Answer → Option Item
  | .item i => some i
  | _ => none

@[simp] def Event.item? : Event → Option Item
  | .answered answer => answer.item?
  | _ => none

@[simp] def Event.chunk? : Event → Option Chunk
  | .transportPolled (.chunk c) => some c
  | _ => none

/-- Whether a callback is called or released. -/
@[simp] def Event.isCall : Event → Bool
  | .headCalled _ | .headReleased | .trailersCalled _ | .trailersReleased => true
  | _ => false

@[simps] def items : Reading Event Item := ⟨Event.item?⟩

@[simps] def delivered : Reading Event Chunk := ⟨Event.chunk?⟩

@[simps] def calls : Reading Event Event where
  shows? e := if e.isCall then some e else none

/-- What only calls and releases show can be read off those. -/
theorem of_calls {β : Type} {r : Reading Event β} (h : ∀ e, e.isCall = false → r.shows? e = none)
    (es : List Event) : r (calls es) = r es :=
  Reading.of_kind h es

@[simp] theorem items_giving (payload : Option Bytes) :
    items (giving payload) = (payload.map Item.payload).toList := by
  cases payload <;> rfl

end ResponseFraming
