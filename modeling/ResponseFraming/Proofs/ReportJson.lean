import ResponseFraming.Report
import Mathlib.Data.List.Basic

/-!
# The JSON of a report

`Report.ToldBy` says of an object that it has the whole of a report, with each part under its
name.  The JSON of a report is such an object, and no other report has the same.
-/

namespace ResponseFraming

namespace Json

def field? (name : String) : Json → Option Json
  | object fields => fields.lookup name
  | _ => none

def names : Json → List String
  | object fields => fields.map (·.1)
  | _ => []

end Json

namespace Report

variable {r s : Report} {j : Json}

/-- Pairs are arrays of two strings. -/
def pairsArray (ps : Pairs) : Json := .array (ps.map fun p => .array [.string p.1, .string p.2])

/-- The whole of a report under the names of an object.  What is not there is null. -/
structure ToldBy (r : Report) (j : Json) : Prop where
  names : j.names =
    ["config", "chunks_seen", "status", "headers", "payloads", "body", "trailers", "completed",
      "error"]
  truncation : (j.field? "config").bind (·.field? "truncation") =
    some (.string (match r.policy.truncation with | .lenient => "lenient" | .strict => "strict"))
  lateHead : (j.field? "config").bind (·.field? "late_head") =
    some (.string (match r.policy.lateHead with | .ignore => "ignore" | .reject => "reject"))
  chunksSeen : j.field? "chunks_seen" = some (.number r.chunksSeen)
  status : j.field? "status" = some (r.status.elim .null fun s => .number s.toNat)
  headers : j.field? "headers" = some (pairsArray r.headers)
  payloads : j.field? "payloads" = some (.number r.payloads)
  body : j.field? "body" = some (.string r.body)
  trailers : j.field? "trailers" = some (r.trailers.elim .null pairsArray)
  completed : j.field? "completed" = some (.boolean r.completed)
  error : j.field? "error" = some (r.error.elim .null .string)

/-- **The JSON of a report tells all of it.** -/
theorem toldBy_toJson (r : Report) : r.ToldBy r.toJson := by
  obtain ⟨⟨t, l⟩, chunksSeen, status, headers, payloads, body, trailers, completed, error⟩ := r
  refine ⟨rfl, ?_, ?_, rfl, ?_, rfl, rfl, rfl, ?_, rfl, ?_⟩
  · cases t <;> rfl
  · cases l <;> rfl
  · cases status <;> rfl
  · cases trailers <;> rfl
  · cases error <;> rfl

theorem pairsArray_injective : Function.Injective pairsArray := by
  intro ps qs h
  refine List.map_injective_iff.mpr ?_ (Json.array.inj h)
  rintro ⟨a, b⟩ ⟨c, d⟩ hp
  simpa using hp

theorem orNull_inj {α : Type} {f : α → Json} (hf : Function.Injective f) (hn : ∀ a, f a ≠ .null)
    {a b : Option α} (h : a.elim .null f = b.elim .null f) : a = b := by
  cases a with
  | none =>
    cases b with
    | none => rfl
    | some b => exact absurd h.symm (hn b)
  | some a =>
    cases b with
    | none => exact absurd h (hn a)
    | some b => rw [hf h]

/-- **JSON tells one report at most.** -/
theorem ToldBy.inj (hr : r.ToldBy j) (hs : s.ToldBy j) : r = s := by
  have htruncation : r.policy.truncation = s.policy.truncation := by
    have h := hr.truncation.symm.trans hs.truncation
    cases ht : r.policy.truncation <;> cases hu : s.policy.truncation <;> simp [ht, hu] at h ⊢
  have hlate : r.policy.lateHead = s.policy.lateHead := by
    have h := hr.lateHead.symm.trans hs.lateHead
    cases ht : r.policy.lateHead <;> cases hu : s.policy.lateHead <;> simp [ht, hu] at h ⊢
  have hchunks := Json.number.inj (Option.some.inj (hr.chunksSeen.symm.trans hs.chunksSeen))
  have hstatus : r.status = s.status :=
    orNull_inj (fun a b h => UInt16.toNat_inj.mp (Json.number.inj h)) nofun
      (Option.some.inj (hr.status.symm.trans hs.status))
  have hheaders := pairsArray_injective (Option.some.inj (hr.headers.symm.trans hs.headers))
  have hpayloads := Json.number.inj (Option.some.inj (hr.payloads.symm.trans hs.payloads))
  have hbody := Json.string.inj (Option.some.inj (hr.body.symm.trans hs.body))
  have htrailers : r.trailers = s.trailers :=
    orNull_inj pairsArray_injective nofun (Option.some.inj (hr.trailers.symm.trans hs.trailers))
  have hcompleted := Json.boolean.inj (Option.some.inj (hr.completed.symm.trans hs.completed))
  have herror : r.error = s.error :=
    orNull_inj (fun a b h => Json.string.inj h) nofun
      (Option.some.inj (hr.error.symm.trans hs.error))
  obtain ⟨⟨t, l⟩, _⟩ := r
  obtain ⟨⟨t', l'⟩, _⟩ := s
  rw [mk.injEq, Policy.mk.injEq]
  exact ⟨⟨htruncation, hlate⟩, hchunks, hstatus, hheaders, hpayloads, hbody, htrailers, hcompleted,
    herror⟩

end Report

end ResponseFraming
