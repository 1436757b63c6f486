import ResponseFraming.Proofs.Endings
import ResponseFraming.Proofs.Replay
import Mathlib

/-!
# The text of a report can be read in one way

Two reports with the same text are the same report, if no name of a field has a colon,
no value a line feed, and no trailers are there without the end of the response
(`Report.Readable`).  Body and error are free: what looks like a line of the report in
them does no harm, since the body's length is written before it and the error comes last.

The text is taken apart from the front, and each piece tells what it says and where it
ends: `X_append_inj` says that of the piece `X`.

* `Report.fieldLines_append_inj`: fields, which end where a line is not indented.
* `Report.bodyLines_append_inj`, `Report.trailerLines_append_inj`.
-/

namespace ResponseFraming

/-- Names do not have the colon, nor values the line feed, that ends them in a report.  A line feed
in a name does no harm. -/
def Pairs.Readable (ps : Pairs) : Prop := ∀ p ∈ ps, ':' ∉ p.1.toList ∧ '\n' ∉ p.2.toList

instance (ps : Pairs) : Decidable ps.Readable :=
  inferInstanceAs (Decidable (∀ p ∈ ps, ':' ∉ p.1.toList ∧ '\n' ∉ p.2.toList))

namespace Report

/-! ## The lines of a report -/

variable {x y : String}

theorem policyLine_append_inj {p q : Policy} (h : policyLine p ++ x = policyLine q ++ y) :
    p = q ∧ x = y := by
  obtain ⟨t, l⟩ := p
  obtain ⟨t', l'⟩ := q
  unfold policyLine at h
  simp only [String.append_assoc, String.append_right_inj] at h
  obtain ⟨ht, h⟩ := label_append_inj (by rintro ⟨⟩ <;> decide) (by rintro ⟨⟩ ⟨⟩ <;> decide) h
  obtain ⟨hl, h⟩ := label_append_inj (by rintro ⟨⟩ <;> decide) (by rintro ⟨⟩ ⟨⟩ <;> decide)
    ((String.append_right_inj _).mp h)
  exact ⟨by rw [ht, hl], (String.append_right_inj _).mp h⟩

theorem headLine_append_inj {s t : Option UInt16} (h : headLine s ++ x = headLine t ++ y) :
    s = t ∧ x = y := by
  have hline : ∀ s : Option UInt16,
      '\n' ∉ ((s.map fun s => toString s.toNat).getD "(none)").toList := by
    intro s
    cases s with
    | none => decide
    | some s => exact not_mem_decimal (by decide) s.toNat
  -- a number does not begin like a word in brackets
  have hnone : ∀ s : UInt16, toString s.toNat ≠ "(none)" := by
    intro s hs
    have hmem : '(' ∈ (toString s.toNat).toList := by rw [hs]; decide
    exact not_mem_decimal (by decide) s.toNat hmem
  simp only [headLine, String.append_assoc, String.append_right_inj] at h
  obtain ⟨hst, hxy⟩ := append_inj_of_stop rfl (hline s) (hline t) h
  refine ⟨?_, hxy⟩
  cases s with
  | none =>
    cases t with
    | none => rfl
    | some t => exact absurd hst.symm (hnone t)
  | some s =>
    cases t with
    | none => exact absurd hst (hnone s)
    | some t => rw [UInt16.toNat_inj.mp (Nat.repr_inj.mp hst)]

theorem fieldLines_cons (p : String × String) (ps : Pairs) :
    fieldLines (p :: ps) = "  " ++ (p.1 ++ (": " ++ (p.2 ++ ("\n" ++ fieldLines ps)))) := by
  rw [fieldLines, List.map_cons, String.join_cons, fieldLines]
  simp only [String.append_assoc]

/-- Fields end where the next line is not indented. -/
theorem fieldLines_append_inj {ps qs : Pairs} (hp : ps.Readable) (hq : qs.Readable)
    (hx : x.toList.head? ≠ some ' ') (hy : y.toList.head? ≠ some ' ')
    (h : fieldLines ps ++ x = fieldLines qs ++ y) : ps = qs ∧ x = y := by
  have hindent : ∀ p ps z, (fieldLines (p :: ps) ++ z).toList.head? = some ' ' := by
    intro p ps z
    rw [fieldLines_cons, String.append_assoc, String.toList_append]
    rfl
  have hnil : ∀ z, fieldLines [] ++ z = z := fun z => String.empty_append
  induction ps generalizing qs with
  | nil =>
    cases qs with
    | nil => exact ⟨rfl, by rwa [hnil, hnil] at h⟩
    | cons q qs =>
      rw [hnil] at h
      rw [h, hindent] at hx
      exact absurd rfl hx
  | cons p ps ih =>
    cases qs with
    | nil =>
      rw [hnil] at h
      rw [← h, hindent] at hy
      exact absurd rfl hy
    | cons q qs =>
      obtain ⟨hp1, hp2⟩ := hp p List.mem_cons_self
      obtain ⟨hq1, hq2⟩ := hq q List.mem_cons_self
      simp only [fieldLines_cons, String.append_assoc, String.append_right_inj] at h
      obtain ⟨hname, h⟩ := append_inj_of_stop rfl hp1 hq1 h
      obtain ⟨hvalue, h⟩ := append_inj_of_stop rfl hp2 hq2 h
      obtain ⟨rfl, hxy⟩ := ih (fun r hr => hp r (List.mem_cons_of_mem p hr))
        (fun r hr => hq r (List.mem_cons_of_mem q hr)) h
      exact ⟨by rw [Prod.ext hname hvalue], hxy⟩

def countLine (bytes payloads chunks : Nat) : String :=
  "body:     " ++ toString bytes ++ " bytes in " ++ toString payloads ++ " payload(s) from " ++
    toString chunks ++ " chunk(s)\n"

/-- The line below it, if there are any bytes. -/
def bodyText (body : String) : String := if body = "" then "" else "  " ++ body ++ "\n"

theorem bodyLines_eq (r : Report) :
    r.bodyLines = countLine r.body.utf8ByteSize r.payloads r.chunksSeen ++ bodyText r.body := by
  unfold bodyLines countLine bodyText
  simp only [String.append_assoc]

theorem countLine_append_inj {n p c n' p' c' : Nat}
    (h : countLine n p c ++ x = countLine n' p' c' ++ y) : (n = n' ∧ p = p' ∧ c = c') ∧ x = y := by
  unfold countLine at h
  simp only [String.append_assoc, String.append_right_inj] at h
  obtain ⟨hn, h⟩ := decimal_append_inj (.of_append rfl rfl) (.of_append rfl rfl) h
  rw [String.append_right_inj] at h
  obtain ⟨hp, h⟩ := decimal_append_inj (.of_append rfl rfl) (.of_append rfl rfl) h
  rw [String.append_right_inj] at h
  obtain ⟨hc, h⟩ := decimal_append_inj (.of_append rfl rfl) (.of_append rfl rfl) h
  rw [String.append_right_inj] at h
  exact ⟨⟨hn, hp, hc⟩, h⟩

theorem bodyText_append_inj {b c : String} (hs : b.utf8ByteSize = c.utf8ByteSize)
    (h : bodyText b ++ x = bodyText c ++ y) : b = c ∧ x = y := by
  by_cases hb : b = ""
  · have hc : c = "" := by rw [← String.utf8ByteSize_eq_zero_iff, ← hs, hb]; rfl
    rw [hb, hc, String.append_right_inj] at h
    exact ⟨hb.trans hc.symm, h⟩
  · have hc : c ≠ "" := by
      rw [Ne, ← String.utf8ByteSize_eq_zero_iff, ← hs, String.utf8ByteSize_eq_zero_iff]
      exact hb
    simp only [bodyText, if_neg hb, if_neg hc, String.append_assoc, String.append_right_inj] at h
    obtain ⟨hbc, h⟩ := append_inj_of_size hs h
    exact ⟨hbc, (String.append_right_inj _).mp h⟩

theorem bodyLines_append_inj {r s : Report} (h : r.bodyLines ++ x = s.bodyLines ++ y) :
    (r.payloads = s.payloads ∧ r.chunksSeen = s.chunksSeen ∧ r.body = s.body) ∧ x = y := by
  rw [bodyLines_eq, bodyLines_eq, String.append_assoc, String.append_assoc] at h
  obtain ⟨⟨hn, hp, hc⟩, h⟩ := countLine_append_inj h
  obtain ⟨hb, h⟩ := bodyText_append_inj hn h
  exact ⟨⟨hp, hc, hb⟩, h⟩

/-- A text without names that end early, values that end early, or trailers before the end. -/
structure Readable (r : Report) : Prop where
  headers : r.headers.Readable
  trailers : ∀ ps, r.trailers = some ps → ps.Readable
  completed : r.trailers.isSome → r.completed

theorem errorLine_head? (e : Option String) : (errorLine e).toList.head? ≠ some ' ' := by
  cases e with
  | none => decide
  | some e =>
    rw [errorLine, Option.map_some, Option.getD_some, String.append_assoc, String.toList_append]
    exact nofun

theorem errorLine_inj {e f : Option String} (h : errorLine e = errorLine f) : e = f := by
  have hsome : ∀ e, errorLine (some e) ≠ errorLine none := by
    intro e he
    simp [errorLine] at he
  cases e with
  | none =>
    cases f with
    | none => rfl
    | some f => exact absurd h.symm (hsome f)
  | some e =>
    cases f with
    | none => exact absurd h (hsome e)
    | some f =>
      simp only [errorLine, Option.map_some, Option.getD_some, String.append_left_inj,
        String.append_right_inj] at h
      rw [h]

/-- Trailers that are given, none, and none yet are told apart. -/
theorem trailerLines_append_inj {r s : Report} (hr : r.Readable) (hs : s.Readable)
    (hx : x.toList.head? ≠ some ' ') (hy : y.toList.head? ≠ some ' ')
    (h : r.trailerLines ++ x = s.trailerLines ++ y) :
    (r.trailers = s.trailers ∧ r.completed = s.completed) ∧ x = y := by
  obtain ⟨-, htr, hcr⟩ := hr
  obtain ⟨-, hts, hcs⟩ := hs
  rw [trailerLines, trailerLines] at h
  generalize r.trailers = t, r.completed = c, s.trailers = t', s.completed = c' at *
  cases t with
  | some ps =>
    obtain rfl : c = true := hcr rfl
    cases t' with
    | some qs =>
      obtain rfl : c' = true := hcs rfl
      simp only [String.append_assoc, String.append_right_inj] at h
      obtain ⟨rfl, hxy⟩ := fieldLines_append_inj (htr ps rfl) (hts qs rfl) hx hy h
      exact ⟨⟨rfl, rfl⟩, hxy⟩
    | none =>
      -- the label is followed by a line feed here and by a blank there
      simp only [String.append_assoc] at h
      cases c' <;> exact absurd h (append_ne_of_getElem? 9 rfl rfl (by decide))
  | none =>
    cases t' with
    | some qs =>
      simp only [String.append_assoc] at h
      cases c <;> exact absurd h (append_ne_of_getElem? 9 rfl rfl (by decide))
    | none =>
      -- the words in brackets part at their third letter
      cases c <;> cases c'
      · exact ⟨⟨rfl, rfl⟩, (String.append_right_inj _).mp h⟩
      · exact absurd h (append_ne_of_getElem? 13 rfl rfl (by decide))
      · exact absurd h (append_ne_of_getElem? 13 rfl rfl (by decide))
      · exact ⟨⟨rfl, rfl⟩, (String.append_right_inj _).mp h⟩

/-! ## The whole text -/

/-- A replay has trailers only from a response that it saw to the end. -/
theorem completed_of_trailers (chunks : List Chunk) (policy : Policy)
    (h : (replay chunks policy).trailers.isSome) : (replay chunks policy).completed :=
  Option.isSome_of_isSome_bind h

/-- **The text of a report can be read in one way.**  Reports whose names have no colon, whose
values have no line feed and whose trailers come from the end of a response, as those of a replay
do, are the same if their texts are, whatever is in the body and the error. -/
theorem text_inj :
    (∀ chunks policy, (replay chunks policy).trailers.isSome → (replay chunks policy).completed) ∧
      ∀ r s : Report, r.Readable → s.Readable → r.text = s.text → r = s := by
  refine ⟨completed_of_trailers, fun r s hr hs h => ?_⟩
  have hbody : ∀ (r : Report) (z : String), (r.bodyLines ++ z).toList.head? ≠ some ' ' := by
    intro r z
    rw [bodyLines_eq]
    unfold countLine
    simp only [String.append_assoc, String.toList_append]
    exact nofun
  simp only [text, String.append_assoc] at h
  obtain ⟨hpolicy, h⟩ := policyLine_append_inj h
  obtain ⟨hstatus, h⟩ := headLine_append_inj h
  obtain ⟨hheaders, h⟩ :=
    fieldLines_append_inj hr.headers hs.headers (hbody r _) (hbody s _) h
  obtain ⟨⟨hpayloads, hchunks, hb⟩, h⟩ := bodyLines_append_inj h
  obtain ⟨⟨htrailers, hcompleted⟩, h⟩ :=
    trailerLines_append_inj hr hs (errorLine_head? _) (errorLine_head? _) h
  have herror := errorLine_inj h
  cases r
  cases s
  rw [mk.injEq]
  exact ⟨hpolicy, hchunks, hstatus, hheaders, hpayloads, hb, htrailers, hcompleted, herror⟩

/-- Body and error have lines of a report in them, which begin and end nothing, and the trailers
are there and empty.  The other report has the same body, put together from its lines. -/
theorem text_inj_lines :
    let r : Report :=
      { policy := .strict, chunksSeen := 3, status := some 200, headers := [("a", "b: c")],
        payloads := 2, body := "x\ntrailers: (none)\n", trailers := some [], completed := true,
        error := some "y\n  a: b" }
    let s : Report := { r with body := "x\n" ++ "trailers: (none)\n" }
    let chunks := [Chunk.last (some ⟨.ofPairs [("d", "e")]⟩)]
    ((r.Readable ∧ s.Readable ∧ r.text = s.text) ∧ r = s) ∧
      (replay chunks .strict).trailers.isSome ∧ (replay chunks .strict).completed := by
  intro r s chunks
  have hr : r.Readable :=
    ⟨by decide, fun ps h => by obtain rfl := Option.some.inj h; exact nofun, fun _ => rfl⟩
  have hs : s.Readable :=
    ⟨by decide, fun ps h => by obtain rfl := Option.some.inj h; exact nofun, fun _ => rfl⟩
  have htext : r.text = s.text := rfl
  have htrailers : (replay chunks .strict).trailers.isSome := by
    rw [replay_eq]
    rfl
  exact ⟨⟨⟨hr, hs, htext⟩, text_inj.2 r s hr hs htext⟩, htrailers,
    text_inj.1 chunks .strict htrailers⟩

end Report

end ResponseFraming
