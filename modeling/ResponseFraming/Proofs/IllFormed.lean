import ResponseFraming.Proofs.Lossy

/-!
# What the lossy reading replaces

A text that is not well-formed is read from the front, one character or one ill-formed part at a
time, and U+FFFD stands for each such part.  An ill-formed part is as long as it can be while some
character begins with it, or is a byte with which no character begins.

`Reads` says this in terms of the encodings of characters alone, `reads_decodeLossy` that the lossy
reading is made so, and `Reads.unique` that no other is.

The scan never has to be opened for what no character begins with: a character that did would be
scanned as itself (`scan_char`), and not as something ill-formed.
-/

namespace ResponseFraming.Utf8

/-- The bytes are the beginning of a character, or all of it. -/
def Begins (bytes : Bytes) : Prop := ∃ c tail, String.utf8EncodeChar c = bytes ++ tail

/-- A text and the characters that it is read as. -/
inductive Reads : Bytes → List Char → Prop
  | nil : Reads [] []
  | char (c : Char) {rest : Bytes} {cs : List Char} :
    Reads rest cs → Reads (String.utf8EncodeChar c ++ rest) (c :: cs)
  /-- A character that is broken off where no character goes on. -/
  | broken {part rest : Bytes} {cs : List Char} : part ≠ [] → Begins part →
    (∀ c, String.utf8EncodeChar c ≠ part) → (∀ b ∈ rest.head?, ¬ Begins (part ++ [b])) →
      Reads rest cs → Reads (part ++ rest) ('\uFFFD' :: cs)
  /-- A byte with which no character begins. -/
  | stray {b : UInt8} {rest : Bytes} {cs : List Char} :
    ¬ Begins [b] → Reads rest cs → Reads (b :: rest) ('\uFFFD' :: cs)

/-! ## The lossy reading is one -/

theorem Leads.begins {u : Unfinished} {held : Bytes} (h : Leads u held) : Begins held := by
  obtain ⟨value, low, high, more⟩ := u
  let v := (value * 64 + (low.toNat - 0x80)) * 64 ^ more
  have hv : v / 64 ^ more = value * 64 + (low.toNat - 0x80) :=
    Nat.mul_div_cancel _ (Nat.pow_pos (by decide))
  refine ⟨Char.ofNat v, [low] ++ tails v more, ?_⟩
  rw [h.encode (UInt8.le_refl low) h.range hv, List.append_assoc]

/-- A beginning of a character is not scanned as an ill-formed part. -/
theorem not_begins_of_scan {bytes : Bytes}
    (h : ∀ rest, ∃ found, scan none (bytes ++ rest) = none :: found) : ¬ Begins bytes := by
  rintro ⟨c, tail, hc⟩
  obtain ⟨found, hf⟩ := h tail
  have hs := scan_char c []
  rw [List.append_nil, hc, hf] at hs
  cases hs

section Scan

variable {u : Option Unfinished} {held : Bytes} {b : UInt8}

def shown (found : List (Option Char)) : List Char := found.map (·.getD '\uFFFD')

theorem shown_some (c : Char) (found : List (Option Char)) :
    shown (some c :: found) = c :: shown found := rfl

theorem scan_start (b : UInt8) (rest : Bytes) :
    scan none (b :: rest) = (start b).ended ++ scan (start b).unfinished rest := rfl

theorem resume_last (value : Nat) {low high : UInt8} (hb : low ≤ b ∧ b ≤ high) :
    resume ⟨value, low, high, 0⟩ b =
      ⟨[some (Char.ofNat (value * 64 + (b.toNat - 0x80)))], none⟩ := if_pos hb

theorem resume_more (value more : Nat) {low high : UInt8} (hb : low ≤ b ∧ b ≤ high) :
    resume ⟨value, low, high, more + 1⟩ b =
      ⟨[], some ⟨value * 64 + (b.toNat - 0x80), 0x80, 0xBF, more⟩⟩ := if_pos hb

/-- A byte out of range is read again as a first byte. -/
theorem scan_out_of_range {u : Unfinished} (hb : ¬ (u.low ≤ b ∧ b ≤ u.high)) (rest : Bytes) :
    scan (some u) (b :: rest) = none :: scan none (b :: rest) := by
  rw [scan, step, resume, if_neg hb, scan_start]
  rfl

/-- **What has been read leads to a reading**, whatever is held. -/
theorem reads_scan (h : Held u held) (hs : ∀ rest, scan none (held ++ rest) = scan u rest)
    (bytes : Bytes) : Reads (held ++ bytes) (shown (scan u bytes)) := by
  induction bytes generalizing u held with
  | nil =>
    cases u with
    | none =>
      obtain rfl : held = [] := h
      exact .nil
    | some u =>
      refine .broken h.nonempty h.begins (fun c hc => ?_) nofun .nil
      have hn := hs []
      rw [← hc, scan_char] at hn
      cases hn
  | cons b rest ih =>
    have hrest : Reads rest (shown (scan none rest)) := ih held_nil fun _ => rfl
    -- The byte at the front of a text, which is also how a byte out of range is read.
    have hfront : Reads (b :: rest) (shown (scan none (b :: rest))) := by
      have hm := moves_start b
      have hscan := scan_start b
      generalize start b = p at hm hscan
      rw [hscan]
      cases hm with
      | @continues u' h' =>
        have hheld : Held (some u') [b] := h'
        exact ih hheld hscan
      | @ends x h' =>
        cases x with
        | some c =>
          have hc : String.utf8EncodeChar c = [b] := h'
          have hr := Reads.char c hrest
          rwa [hc] at hr
        | none => exact .stray (not_begins_of_scan fun tail => ⟨_, hscan tail⟩) hrest
      | breaks h' => exact absurd rfl h'.1
      | separates h' => exact absurd rfl h'.1
    cases u with
    | none =>
      obtain rfl : held = [] := h
      exact hfront
    | some u =>
      by_cases hb : u.low ≤ b ∧ b ≤ u.high
      · obtain ⟨value, low, high, more⟩ := u
        change low ≤ b ∧ b ≤ high at hb
        cases more with
        | zero =>
          have hscan := scan_of_resume (resume_last value hb)
          have hr := hrest.char (Char.ofNat (value * 64 + (b.toNat - 0x80)))
          rw [h.last hb.1 hb.2, List.append_assoc, List.singleton_append] at hr
          rw [hscan, List.singleton_append, shown_some]
          exact hr
        | succ more =>
          have hscan := scan_of_resume (resume_more value more hb)
          rw [hscan, ← List.singleton_append, ← List.append_assoc]
          refine ih (h.append hb.1 hb.2) fun tail => ?_
          rw [List.append_assoc, hs, List.singleton_append, hscan]
          rfl
      · rw [scan_out_of_range hb]
        refine .broken h.nonempty h.begins (fun c hc => ?_) (fun d hd => ?_) hfront
        · have hn := hs []
          rw [← hc, scan_char] at hn
          cases hn
        · obtain rfl : b = d := by simpa using hd
          refine not_begins_of_scan fun tail => ⟨scan none (b :: tail), ?_⟩
          rw [List.append_assoc, hs, List.singleton_append, scan_out_of_range hb]

end Scan

/-- **The lossy reading is a reading.** -/
theorem reads_decodeLossy (bytes : Bytes) : Reads bytes (decodeLossy bytes).toList := by
  rw [decodeLossy, String.toList_ofList]
  exact reads_scan held_nil (fun _ => rfl) bytes

/-! ## There is no other -/

/-- No character's encoding is the beginning of another's. -/
theorem eq_of_encode_append {c d : Char} {x y : Bytes}
    (h : String.utf8EncodeChar c ++ x = String.utf8EncodeChar d ++ y) : c = d ∧ x = y := by
  have hs := congrArg (scan none) h
  rw [scan_char, scan_char, List.cons.injEq, Option.some.injEq] at hs
  obtain rfl := hs.1
  exact ⟨rfl, List.append_cancel_left h⟩

theorem encode_ne_nil (c : Char) : String.utf8EncodeChar c ≠ [] := by
  intro h
  have hs := scan_char c []
  rw [h] at hs
  cases hs

theorem begins_encode (c : Char) : Begins (String.utf8EncodeChar c) :=
  ⟨c, [], (List.append_nil _).symm⟩

theorem Begins.of_append {x y : Bytes} (h : Begins (x ++ y)) : Begins x := by
  obtain ⟨c, tail, hc⟩ := h
  exact ⟨c, y ++ tail, by rw [hc, List.append_assoc]⟩

/-- Two ways to cut a text: one piece is longer, and then it goes on with the other's next byte. -/
theorem append_cases {x y u v : Bytes} (h : x ++ u = y ++ v) :
    (x = y ∧ u = v) ∨ (∃ b t, y = x ++ b :: t ∧ u.head? = some b) ∨
      ∃ b t, x = y ++ b :: t ∧ v.head? = some b := by
  obtain ⟨t, hy, hu⟩ | ⟨t, hx, hv⟩ := List.append_eq_append_iff.mp h
  · cases t with
    | nil => exact .inl ⟨by simpa using hy.symm, by simpa using hu⟩
    | cons b t => exact .inr (.inl ⟨b, t, hy, by rw [hu]; rfl⟩)
  · cases t with
    | nil => exact .inl ⟨by simpa using hx, by simpa using hv.symm⟩
    | cons b t => exact .inr (.inr ⟨b, t, hx, by rw [hv]; rfl⟩)

theorem not_begins_longer {part rest t : Bytes} {b : UInt8}
    (h : ∀ b ∈ rest.head?, ¬ Begins (part ++ [b])) (hb : rest.head? = some b) :
    ¬ Begins (part ++ b :: t) := fun hp =>
  h b hb (Begins.of_append (y := t) (by rwa [List.append_assoc]))

/-- A part that is broken off does not stand where a character does. -/
theorem encode_append_ne_broken {c : Char} {part x rest : Bytes} (hp : Begins part)
    (hc : ∀ c, String.utf8EncodeChar c ≠ part) (hb : ∀ b ∈ rest.head?, ¬ Begins (part ++ [b])) :
    String.utf8EncodeChar c ++ x ≠ part ++ rest := by
  intro h
  obtain ⟨h, -⟩ | ⟨b, t, rfl, -⟩ | ⟨b, t, h, hh⟩ := append_cases h
  · exact hc c h
  · obtain ⟨d, tail, hd⟩ := hp
    rw [← List.append_nil (String.utf8EncodeChar d), List.append_assoc] at hd
    cases (eq_of_encode_append hd).2
  · exact not_begins_longer hb hh ⟨c, [], by rw [h, List.append_nil]⟩

theorem begins_of_cons {b : UInt8} {part x y : Bytes} (hn : part ≠ []) (hp : Begins part)
    (h : part ++ x = b :: y) : Begins [b] := by
  cases part with
  | nil => exact absurd rfl hn
  | cons d t =>
    obtain rfl := (List.cons.inj h).1
    exact hp.of_append (x := [d])

/-- **A text is read in one way.** -/
theorem Reads.unique {bytes : Bytes} {cs ds : List Char} (h : Reads bytes cs)
    (h' : Reads bytes ds) : cs = ds := by
  induction h generalizing ds with
  | nil =>
    generalize hb : [] = bytes at h'
    cases h' with
    | nil => rfl
    | char c => exact absurd (List.append_eq_nil_iff.mp hb.symm).1 (encode_ne_nil c)
    | broken hn => exact absurd (List.append_eq_nil_iff.mp hb.symm).1 hn
    | stray => cases hb
  | @char c rest cs h ih =>
    generalize hb : String.utf8EncodeChar c ++ rest = bytes at h'
    cases h' with
    | nil => exact absurd (List.append_eq_nil_iff.mp hb).1 (encode_ne_nil c)
    | char d h' =>
      obtain ⟨rfl, rfl⟩ := eq_of_encode_append hb
      rw [ih h']
    | broken _ hp hc hr => exact absurd hb (encode_append_ne_broken hp hc hr)
    | stray hs => exact absurd (begins_of_cons (encode_ne_nil c) (begins_encode c) hb) hs
  | @broken part rest cs hn hp hc hr h ih =>
    generalize hb : part ++ rest = bytes at h'
    cases h' with
    | nil => exact absurd (List.append_eq_nil_iff.mp hb).1 hn
    | char d => exact absurd hb.symm (encode_append_ne_broken hp hc hr)
    | broken _ hp' _ hr' h' =>
      obtain ⟨rfl, rfl⟩ | ⟨b, t, rfl, hh⟩ | ⟨b, t, rfl, hh⟩ := append_cases hb
      · rw [ih h']
      · exact absurd hp' (not_begins_longer hr hh)
      · exact absurd hp (not_begins_longer hr' hh)
    | stray hs => exact absurd (begins_of_cons hn hp hb) hs
  | @stray b rest cs hs h ih =>
    generalize hb : b :: rest = bytes at h'
    cases h' with
    | nil => cases hb
    | char c => exact absurd (begins_of_cons (encode_ne_nil c) (begins_encode c) hb.symm) hs
    | broken hn hp => exact absurd (begins_of_cons hn hp hb.symm) hs
    | stray _ h' =>
      obtain ⟨-, rfl⟩ := List.cons.inj hb
      rw [ih h']

/-- So the lossy reading of a string's encoding is that string. -/
theorem reads_iff {bytes : Bytes} {cs : List Char} :
    Reads bytes cs ↔ (decodeLossy bytes).toList = cs :=
  ⟨fun h => (reads_decodeLossy bytes).unique h, fun h => h ▸ reads_decodeLossy bytes⟩

end ResponseFraming.Utf8
