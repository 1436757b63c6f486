import ResponseFraming.Text.Utf8

/-!
# Reading back what was encoded

Scanning the bytes of an encoded string finds its characters and no ill-formed
part (`scan_encode`), so the lossy reading of an encoded string is that string
(`decodeLossy_encode`).  This is so for a text as a whole, wherever its bytes were cut.

A character takes one first byte and up to three tails of six bits each.  `start_two`,
`start_three` and `start_four` say what a first byte leaves unfinished, and
`resume_tail` what a tail adds; `scan_two`, `scan_three` and `scan_four` put them together.
-/

namespace ResponseFraming.Utf8

/-! ## Bytes of a character -/

/-- The byte that carries the last six bits of a number. -/
def tail (n : Nat) : UInt8 := UInt8.ofNat (n % 64 + 128)

theorem toNat_tail (n : Nat) : (tail n).toNat = n % 64 + 128 := by
  rw [tail, UInt8.toNat_ofNat']
  omega

theorem start_one {n : Nat} (h : n ≤ 0x7F) :
    start (UInt8.ofNat n) = ⟨[some (Char.ofNat n)], none⟩ := by
  have hn : (UInt8.ofNat n).toNat = n := by
    rw [UInt8.toNat_ofNat']
    omega
  have hb : UInt8.ofNat n ≤ 0x7F := by
    rw [UInt8.le_iff_toNat_le, hn]
    exact h
  rw [start, if_pos hb, hn]

theorem start_two : ∀ n < 32, 2 ≤ n →
    start (UInt8.ofNat (n + 192)) = ⟨[], some ⟨n, 0x80, 0xBF, 0⟩⟩ := by decide

/-- The second byte is bounded so that there is neither an overlong form nor a surrogate. -/
theorem start_three : ∀ n < 16,
    start (UInt8.ofNat (n + 224)) =
      ⟨[], some ⟨n, if n = 0 then 0xA0 else 0x80, if n = 13 then 0x9F else 0xBF, 1⟩⟩ := by decide

/-- The second byte is bounded so that there is neither an overlong form nor too large a value. -/
theorem start_four : ∀ n < 5,
    start (UInt8.ofNat (n + 240)) =
      ⟨[], some ⟨n, if n = 0 then 0x90 else 0x80, if n = 4 then 0x8F else 0xBF, 2⟩⟩ := by decide

/-! ## Tails -/

section Tail

variable {value n more : Nat} {low high : UInt8} (hl : low.toNat ≤ n % 64 + 128)
  (hh : n % 64 + 128 ≤ high.toNat)

include hl hh

theorem tail_mem : low ≤ tail n ∧ tail n ≤ high := by
  rw [UInt8.le_iff_toNat_le, UInt8.le_iff_toNat_le, toNat_tail]
  exact ⟨hl, hh⟩

theorem resume_tail_last :
    resume ⟨value, low, high, 0⟩ (tail n) = ⟨[some (Char.ofNat (value * 64 + n % 64))], none⟩ := by
  rw [resume, if_pos (tail_mem hl hh), toNat_tail, Nat.add_sub_cancel]

theorem resume_tail :
    resume ⟨value, low, high, more + 1⟩ (tail n) =
      ⟨[], some ⟨value * 64 + n % 64, 0x80, 0xBF, more⟩⟩ := by
  rw [resume, if_pos (tail_mem hl hh), toNat_tail, Nat.add_sub_cancel]

end Tail

theorem le_tail (n : Nat) : (0x80 : UInt8).toNat ≤ n % 64 + 128 := Nat.le_add_left 128 _

theorem tail_le (n : Nat) : n % 64 + 128 ≤ (0xBF : UInt8).toNat := by
  show n % 64 + 128 ≤ 191
  omega

/-! ## Characters -/

theorem scan_of_start {b : UInt8} {p : Progress} (h : start b = p) (rest : Bytes) :
    scan none (b :: rest) = p.ended ++ scan p.unfinished rest := by rw [scan, step, h]

theorem scan_of_resume {u : Unfinished} {b : UInt8} {p : Progress} (h : resume u b = p)
    (rest : Bytes) : scan (some u) (b :: rest) = p.ended ++ scan p.unfinished rest := by
  rw [scan, step, h]

theorem scan_tail (value n : Nat) (rest : Bytes) :
    scan (some ⟨value, 0x80, 0xBF, 0⟩) (tail n :: rest) =
      some (Char.ofNat (value * 64 + n % 64)) :: scan none rest := by
  rw [scan_of_resume (resume_tail_last (le_tail n) (tail_le n))]
  rfl

theorem scan_tails (value m n : Nat) (rest : Bytes) :
    scan (some ⟨value, 0x80, 0xBF, 1⟩) (tail m :: tail n :: rest) =
      some (Char.ofNat ((value * 64 + m % 64) * 64 + n % 64)) :: scan none rest := by
  rw [scan_of_resume (resume_tail (le_tail m) (tail_le m)), scan_tail]
  rfl

theorem scan_two {a n : Nat} (ha : a < 32) (h : 2 ≤ a) (rest : Bytes) :
    scan none (UInt8.ofNat (a + 192) :: tail n :: rest) =
      some (Char.ofNat (a * 64 + n % 64)) :: scan none rest := by
  rw [scan_of_start (start_two a ha h), scan_tail]
  rfl

theorem scan_three {a m n : Nat} (ha : a < 16) (hl : a = 0 → 32 ≤ m % 64)
    (hh : a = 13 → m % 64 < 32) (rest : Bytes) :
    scan none (UInt8.ofNat (a + 224) :: tail m :: tail n :: rest) =
      some (Char.ofNat ((a * 64 + m % 64) * 64 + n % 64)) :: scan none rest := by
  have hlow : (if a = 0 then 0xA0 else 0x80 : UInt8).toNat ≤ m % 64 + 128 := by
    split
    · show 160 ≤ m % 64 + 128
      omega
    · exact le_tail m
  have hhigh : m % 64 + 128 ≤ (if a = 13 then 0x9F else 0xBF : UInt8).toNat := by
    split
    · show m % 64 + 128 ≤ 159
      omega
    · exact tail_le m
  rw [scan_of_start (start_three a ha), scan_of_resume (resume_tail hlow hhigh), scan_tail]
  rfl

theorem scan_four {a l m n : Nat} (ha : a < 5) (hl : a = 0 → 16 ≤ l % 64)
    (hh : a = 4 → l % 64 < 16) (rest : Bytes) :
    scan none (UInt8.ofNat (a + 240) :: tail l :: tail m :: tail n :: rest) =
      some (Char.ofNat (((a * 64 + l % 64) * 64 + m % 64) * 64 + n % 64)) :: scan none rest := by
  have hlow : (if a = 0 then 0x90 else 0x80 : UInt8).toNat ≤ l % 64 + 128 := by
    split
    · show 144 ≤ l % 64 + 128
      omega
    · exact le_tail l
  have hhigh : l % 64 + 128 ≤ (if a = 4 then 0x8F else 0xBF : UInt8).toNat := by
    split
    · show l % 64 + 128 ≤ 143
      omega
    · exact tail_le l
  rw [scan_of_start (start_four a ha), scan_of_resume (resume_tail hlow hhigh), scan_tails]
  rfl

/-- **A character is read back**, whatever follows it. -/
theorem scan_char (c : Char) (rest : Bytes) :
    scan none (String.utf8EncodeChar c ++ rest) = some c :: scan none rest := by
  have hc : Char.ofNat c.val.toNat = c := Char.ofNat_toNat c
  have hv : c.val.toNat < 0xD800 ∨ 0xDFFF < c.val.toNat ∧ c.val.toNat < 0x110000 := c.valid
  unfold String.utf8EncodeChar
  generalize c.val.toNat = v at hc hv
  simp only
  -- The encoding takes as many bytes as the value needs.
  by_cases h1 : v ≤ 0x7F
  · rw [if_pos h1, List.cons_append, scan_of_start (start_one h1), hc]
    rfl
  rw [if_neg h1]
  by_cases h2 : v ≤ 0x7FF
  · have hn : v / 64 % 32 * 64 + v % 64 = v := by omega
    rw [if_pos h2]
    refine (scan_two (by omega) (by omega) rest).trans ?_
    rw [hn, hc]
  rw [if_neg h2]
  by_cases h3 : v ≤ 0xFFFF
  · have hn : (v / 4096 % 16 * 64 + v / 64 % 64) * 64 + v % 64 = v := by omega
    rw [if_pos h3]
    refine (scan_three (by omega) (by omega) (by omega) rest).trans ?_
    rw [hn, hc]
  · have hn : ((v / 262144 % 8 * 64 + v / 4096 % 64) * 64 + v / 64 % 64) * 64 + v % 64 = v := by
      omega
    rw [if_neg h3]
    refine (scan_four (by omega) (by omega) (by omega) rest).trans ?_
    rw [hn, hc]

/-! ## Strings -/

/-- The bytes are those of the library's encoding. -/
theorem encode_eq_toUTF8 (s : String) : encode s = s.toUTF8.data.toList := by
  rw [encode, String.toUTF8, ← String.utf8Encode_toList, List.utf8Encode,
    List.toList_data_toByteArray]

theorem scan_encode (s : String) : scan none (encode s) = s.toList.map some := by
  rw [encode]
  induction s.toList with
  | nil => rfl
  | cons c cs ih => rw [List.flatMap_cons, scan_char, ih, List.map_cons]

/-- **The lossy reading loses nothing of an encoded string.** -/
theorem decodeLossy_encode (s : String) : decodeLossy (encode s) = s := by
  have h : (s.toList.map some).map (·.getD '\uFFFD') = s.toList := by
    rw [List.map_map]
    exact List.map_id _
  rw [decodeLossy, scan_encode, h, String.ofList_toList]

theorem encode_append (s t : String) : encode (s ++ t) = encode s ++ encode t := by
  rw [encode, String.toList_append, List.flatMap_append]
  rfl

end ResponseFraming.Utf8
